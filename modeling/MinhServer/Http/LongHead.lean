import MinhServer.Http.Head
import MinhServer.Segmentation

namespace MinhServer
open CString Wire

/-- A GET request line with a path of `n + 1` bytes. -/
def getLine (n : Nat) : Bytes := ascii "GET /" ++ (List.replicate n 97 ++ ascii " HTTP/1.1")

def getHead (n : Nat) : Bytes := joinLines [getLine n] ++ crlf

section LongHead
variable (n : Nat)

theorem length_getLine : (getLine n).length = n + 14 := by
  have hlen : (ascii "GET /").length = 5 ∧ (ascii " HTTP/1.1").length = 9 := by decide
  rw [getLine, List.length_append, List.length_append, List.length_replicate, hlen.1, hlen.2]
  omega

theorem length_getHead : (getHead n).length = n + 18 := by
  have hcrlf : crlf.length = 2 := rfl
  simp only [getHead, joinLines, List.flatMap_cons, List.flatMap_nil, List.append_nil,
    List.length_append, length_getLine, hcrlf]

theorem isLine_getLine : IsLine (getLine n) := by
  have hpath : 13 ∉ List.replicate n (97 : Byte) := fun hmem =>
    absurd (List.eq_of_mem_replicate hmem) (by decide)
  have hends : 13 ∉ ascii "GET /" ∧ 13 ∉ ascii " HTTP/1.1" := by decide
  refine .of_notMem ?_ ?_
  · intro hnil
    have hlen := length_getLine n
    rw [hnil, List.length_nil] at hlen
    omega
  · exact List.not_mem_append hends.1 (List.not_mem_append hpath hends.2)

theorem isBodyless_getHead : isBodyless (requestMethod (getHead n)) = true := by
  have hstart : getHead n = 71 :: 69 :: 84 :: 32 :: (47 :: List.replicate n 97 ++
      (ascii " HTTP/1.1" ++ (crlf ++ crlf))) := by
    simp only [getHead, joinLines, List.flatMap_cons, List.flatMap_nil, List.append_nil, getLine,
      List.append_assoc]
    rfl
  have hcstr : ∃ t, cstr (getHead n) = 71 :: 69 :: 84 :: 32 :: t := by
    rw [hstart]
    exact ⟨_, rfl⟩
  obtain ⟨t, ht⟩ := hcstr
  have hspace : strchr (71 :: 69 :: 84 :: 32 :: t) 32 = some 3 := rfl
  rw [requestMethod, ht, hspace, hstart]
  show isBodyless [71, 69, 84] = true
  decide +kernel

theorem frameEnd_getHead : FrameEnd (getHead n) (n + 18) := by
  have hline : ∀ l ∈ [getLine n], IsLine l := List.forall_mem_singleton.mpr (isLine_getLine n)
  obtain ⟨e, he, hlen, -⟩ := headEnd_joinLines hline (List.cons_ne_nil _ _) []
  rw [List.append_nil] at he
  have hend : findHttpHeaderEnd (getHead n) = some (getHead n).length := by
    rw [findHttpHeaderEnd_eq, getHead, he, Option.map_some, hlen]
  have hframe := frameEnd_bodyless hend (isBodyless_getHead n)
  rwa [length_getHead] at hframe

theorem recvRequest_getHead (hn : n + 18 ≤ 2 ^ 24) : ∃ r : RecvBuffer,
    (recvRequest .blocking (.ofSegments [getHead n])).1 = some r ∧ r.bytes = getHead n := by
  have hbytes : (Peer.ofSegments [getHead n]).bytes = getHead n := by
    rw [Peer.bytes_ofSegments, List.flatten_singleton]
  have hframe : FrameEnd (Peer.ofSegments [getHead n]).bytes (n + 18) :=
    hbytes.symm ▸ frameEnd_getHead n
  obtain ⟨m, r, p', hrecv, hr, -, hlong, -⟩ := recvRequest_lump .blocking ⟨_, rfl⟩ hframe hn
  refine ⟨r, by rw [hrecv], ?_⟩
  rw [hr, hbytes]
  exact List.take_of_length_le (by rw [length_getHead]; exact hlong)

end LongHead
end MinhServer
