import Mathlib.Data.List.Chain
import MinhServer.Http.Head
import MinhServer.Library.Pointer

namespace MinhServer
open CString Pointer

/-- A pass of the loop: the start of the line, what `strstr` found, and `parse_line`. -/
structure LinePass where
  newLine : Nat
  temp : Option Nat
  line : Bytes
  deriving DecidableEq, Repr

/-- The passes of the loop. A length that is negative, a copy beyond the request and a line that
is not terminated have no result. -/
def cutLines (mem : Bytes) (headerEndPos newLine : Nat) : Option (List LinePass) :=
  if headerEndPos ≤ newLine then some []
  else
    match _ht : stringAt mem newLine with
    | none => none
    | some text =>
      match _hl : strstr text crlf with
      | none => some [⟨newLine, none, []⟩] -- the break behind the copy
      | some n => do
        let temp := newLine + n
        let lineLen ← lengthBetween newLine temp
        let parseLine ← copyInto (lineLen + 1) mem newLine lineLen
        let line ← stringAt parseLine 0
        let rest ← cutLines mem headerEndPos (temp + 2)
        some (⟨newLine, some temp, line⟩ :: rest)
termination_by mem.length - newLine
decreasing_by
  have := strstr_end_le (by decide) _hl
  have := length_stringAt_le _ht
  simp only [crlf, List.length_cons, List.length_nil] at *
  omega

/-- The line end is there, not before the start of the line and not behind the head, and the line
is what lies between them. -/
def LinePass.Inside (s : Bytes) (headerEndPos : Nat) (pass : LinePass) : Prop :=
  ∃ temp, pass.temp = some temp ∧ pass.newLine ≤ temp ∧ temp ≤ headerEndPos ∧
    pass.line = (s.drop pass.newLine).take (temp - pass.newLine)

/-- The passes from `start` on go through the rest of the head, line by line. -/
structure CutsHead (s : Bytes) (start headerEndPos : Nat) (passes : List LinePass) : Prop where
  starts : ∀ pass ∈ passes.head?, pass.newLine = start
  inside : ∀ pass ∈ passes, pass.newLine < headerEndPos ∧ pass.Inside s headerEndPos
  increasing : (passes.map LinePass.newLine).IsChain (· < ·)
  joined : crlf.intercalate (passes.map LinePass.line) =
    (s.drop start).take (headerEndPos - start)

section Pass
variable {s : Bytes} {ptr n e : Nat}

theorem cutLines_at_end {mem : Bytes} (h : e ≤ ptr) : cutLines mem e ptr = some [] := by
  rw [cutLines, if_pos h]

theorem cutLines_of_some (h0 : 0 ∉ s) (hptr : ptr < e) (hn : ptr + n ≤ s.length)
    (h : strstr (s.drop ptr) crlf = some n) :
    cutLines (s ++ [0]) e ptr = (cutLines (s ++ [0]) e (ptr + n + 2)).map
      (⟨ptr, some (ptr + n), (s.drop ptr).take n⟩ :: ·) := by
  have htext : stringAt (s ++ [0]) ptr = some (s.drop ptr) := stringAt_terminated h0 (by omega)
  have hstring : 0 ∉ (s.drop ptr).take n := fun hmem =>
    h0 (List.mem_of_mem_drop (List.mem_of_mem_take hmem))
  have hlength : lengthBetween ptr (ptr + n) = some n := by
    rw [lengthBetween, if_pos (Nat.le_add_right ptr n), Nat.add_sub_cancel_left]
  have hline : stringAt ((s.drop ptr).take n ++ [0]) 0 = some ((s.drop ptr).take n) := by
    rw [stringAt_terminated hstring (Nat.zero_le _), List.drop_zero]
  rw [cutLines, if_neg (not_le.mpr hptr)]
  split
  · next hnone =>
    rw [htext] at hnone
    cases hnone
  · next text htext' =>
    cases htext'.symm.trans htext
    split
    · next hnone =>
      rw [h] at hnone
      cases hnone
    · next m hm =>
      cases hm.symm.trans h
      simp only [hlength, copyInto_terminated hn (Nat.lt_succ_self n), hline,
        Option.bind_eq_bind, Option.bind_some, Option.map_eq_bind]
      rfl

theorem LinePass.inside_take (h : ptr + n ≤ e) :
    LinePass.Inside s e ⟨ptr, some (ptr + n), (s.drop ptr).take n⟩ :=
  ⟨ptr + n, rfl, Nat.le_add_right ptr n, h, by rw [Nat.add_sub_cancel_left]⟩

/-- The last line: it ends where the head does. -/
theorem CutsHead.last (hptr : ptr < e) (h : ptr + n = e) :
    CutsHead s ptr e [⟨ptr, some (ptr + n), (s.drop ptr).take n⟩] where
  starts := by simp
  inside := by
    rw [List.forall_mem_singleton]
    exact ⟨hptr, LinePass.inside_take h.le⟩
  increasing := by simp
  joined := by
    subst h
    rw [List.map_singleton, List.intercalate_singleton, Nat.add_sub_cancel_left]

/-- A line in front of others. -/
theorem CutsHead.cons {passes : List LinePass} (hend : ptr + n + 2 < e)
    (hline : strstr (s.drop ptr) crlf = some n) (h : CutsHead s (ptr + n + 2) e passes)
    (hne : passes ≠ []) :
    CutsHead s ptr e (⟨ptr, some (ptr + n), (s.drop ptr).take n⟩ :: passes) where
  starts := by simp
  inside := by
    have hptr : ptr < e := by omega
    rw [List.forall_mem_cons]
    exact ⟨⟨hptr, LinePass.inside_take (by omega)⟩, h.inside⟩
  increasing := by
    rw [List.map_cons, List.isChain_cons]
    refine ⟨fun next hnext => ?_, h.increasing⟩
    rw [List.head?_map] at hnext
    obtain ⟨pass, hpass, rfl⟩ := Option.map_eq_some_iff.mp hnext
    rw [h.starts pass hpass]
    change ptr < ptr + n + 2
    omega
  joined := by
    have hbehind : (s.drop ptr).drop n = crlf ++ s.drop (ptr + n + 2) := by
      rw [strstr_split hline, List.drop_drop, ← Nat.add_assoc]
      rfl
    have hsplit : s.drop ptr = (s.drop ptr).take n ++ crlf ++ s.drop (ptr + n + 2) := by
      rw [List.append_assoc, ← hbehind, List.take_append_drop]
    have hlen : ((s.drop ptr).take n ++ crlf).length = n + 2 := by
      have hle := strstr_end_le (by decide) hline
      simp only [crlf, List.length_append, List.length_take, List.length_cons, List.length_nil]
        at hle ⊢
      omega
    have hleft : e - ptr = ((s.drop ptr).take n ++ crlf).length + (e - (ptr + n + 2)) := by omega
    rw [List.map_cons, List.intercalate_cons_of_ne_nil (by simpa using hne), h.joined]
    conv_rhs => rw [hsplit, hleft, List.take_length_add_append]

end Pass

/-- From a line of the head on: the cuts are inside, and give the lines of the head. -/
theorem cutLines_eq {s : Bytes} (h0 : 0 ∉ s) {ptr e : Nat} (hptr : ptr < e)
    (h : strstr (s.drop ptr) headEnd = some (e - ptr)) :
    ∃ passes, cutLines (s ++ [0]) e ptr = some passes ∧ passes ≠ [] ∧ CutsHead s ptr e passes ∧
      passes.map LinePass.line = lines ((s.drop ptr).take (e - ptr)) := by
  induction hsize : e - ptr using Nat.strong_induction_on generalizing ptr with
  | _ size ih =>
  subst hsize
  have hle := strstr_end_le (by decide) h
  simp only [headEnd, List.length_cons, List.length_nil, List.length_drop] at hle
  have hleft : e - ptr ≠ 0 := by omega
  obtain ⟨n, hline, -, hlines, -⟩ := headCut hleft (.inr h)
  obtain ⟨m, hline', hcut⟩ := exists_lineCut h
  cases hline.symm.trans hline'
  rcases hcut with hlast | ⟨hmore, hrest⟩
  · refine ⟨[⟨ptr, some (ptr + n), (s.drop ptr).take n⟩], ?_, List.cons_ne_nil _ _,
      .last hptr (by omega), ?_⟩
    · rw [cutLines_of_some h0 hptr (by omega) hline, cutLines_at_end (by omega)]
      rfl
    -- the line goes up to the end of the head: the next pass is none
    · have hdone : e - ptr - (n + 2) = 0 := by omega
      rw [hlines, hdone, List.take_zero, lines_of_none (by decide), if_pos rfl]
      rfl
  · have hnext : (s.drop ptr).drop (n + 2) = s.drop (ptr + n + 2) := by
      rw [List.drop_drop, Nat.add_assoc]
    have hsub : e - ptr - (n + 2) = e - (ptr + n + 2) := by omega
    rw [hnext, hsub] at hrest
    obtain ⟨passes, hpasses, hne, hcuts, hothers⟩ := ih _ (by omega) (by omega) hrest rfl
    refine ⟨_, ?_, List.cons_ne_nil _ _, hcuts.cons (by omega) hline hne, ?_⟩
    · rw [cutLines_of_some h0 hptr (by omega) hline, hpasses, Option.map_some]
    · rw [List.map_cons, hothers, hlines, hnext, hsub]

/-- With a complete head the loop comes to an end, finds a line end in every pass, between the
start of the line and the end of the head, and cuts the bytes before the first CRLFCRLF into
lines; these, and nothing of the body, are what the parser reads as request line and headers. -/
theorem head_cut_into_lines {request : Bytes} {e : Nat}
    (h : strstr (cstr request) headEnd = some e) :
    ∃ passes, cutLines (cstr request ++ [0]) e 0 = some passes ∧
      (∀ pass ∈ passes, pass.newLine < e ∧ pass.Inside (cstr request) e) ∧
      (passes.map LinePass.newLine).IsChain (· < ·) ∧
      crlf.intercalate (passes.map LinePass.line) = (cstr request).take e ∧
      ∀ req, parseHttpRequest request req =
        readHead (passes.map LinePass.line) req >>= fun req =>
          .ok (parseBody ((cstr request).drop (e + 4)) req) := by
  have h0 := zero_notMem_cstr request
  simp only [parseHttpRequest_head h, headLines_of_end h]
  rcases Nat.eq_zero_or_pos e with rfl | hpos
  · have hnone : lines ((cstr request).take 0) = [] := by
      rw [List.take_zero, lines_of_none (by decide), if_pos rfl]
    refine ⟨[], cutLines_at_end le_rfl, by simp, by simp, rfl, fun req => ?_⟩
    rw [hnone, List.map_nil]
  · obtain ⟨passes, hpasses, -, hcuts, hlines⟩ := cutLines_eq h0 hpos h
    rw [List.drop_zero, Nat.sub_zero] at hlines
    refine ⟨passes, hpasses, hcuts.inside, hcuts.increasing, hcuts.joined, fun req => ?_⟩
    rw [hlines]

/-- A request line and one header. -/
theorem head_cut_into_lines_host :
    ∃ passes, cutLines (ascii "GET / HTTP/1.1\r\nHost: a\r\n\r\nbody" ++ [0]) 23 0 = some passes ∧
      crlf.intercalate (passes.map LinePass.line) = ascii "GET / HTTP/1.1\r\nHost: a" := by
  let request := ascii "GET / HTTP/1.1\r\nHost: a\r\n\r\nbody"
  have hself : cstr request = request := by decide +kernel
  have hend : strstr (cstr request) headEnd = some 23 := by decide +kernel
  obtain ⟨passes, hpasses, -, -, hjoined, -⟩ := head_cut_into_lines hend
  rw [hself] at hpasses hjoined
  exact ⟨passes, hpasses, hjoined.trans (by decide +kernel)⟩

end MinhServer
