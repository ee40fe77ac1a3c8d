import MinhServer.ReceiveBuffer

namespace MinhServer
open CString Wire

/-- The call is over. -/
def RecvCall.Over (c : RecvCall) : Prop := (∃ l, c.point = .returned l) ∨ c.point = .null

/-- A returned buffer holds at most 10 MiB, and a call that received more returns NULL. -/
structure LimitEnforced (c : RecvCall) : Prop where
  returned : ∀ l, c.point = .returned l → (receivedBytes c.outcomes).length ≤ maxRequest
  refused : maxRequest < (receivedBytes c.outcomes).length → c.point = .null

/-- The arrival that takes the bytes received past 10 MiB completes the request. -/
def CompletesPastLimit (os : List (RecvResult Byte)) : Prop :=
  ∃ before bytes after, os = before ++ .data bytes :: after ∧
    (receivedBytes before).length ≤ maxRequest ∧
    maxRequest < (receivedBytes (before ++ [.data bytes])).length ∧
    requestComplete (receivedBytes (before ++ [.data bytes])) = true

/-- Such an arrival is part of what was received, and completes it. -/
theorem CompletesPastLimit.received {os : List (RecvResult Byte)} (h : CompletesPastLimit os) :
    maxRequest < (receivedBytes os).length ∧ requestComplete (receivedBytes os) = true := by
  obtain ⟨before, bytes, after, rfl, -, hlong, hdone⟩ := h
  rw [List.append_cons, receivedBytes_append]
  refine ⟨?_, requestComplete_append hdone _⟩
  rw [List.length_append]
  omega

/-- The limit is enforced on a call exactly when the arrival that crosses it does not complete
the request. -/
theorem limit_enforced_iff {stale : Nat → Byte} {c : RecvCall}
    (h : (recvMachine stale).Reachable c) (hover : c.Over) :
    LimitEnforced c ↔ ¬ CompletesPastLimit c.outcomes := by
  have hinv := pointInv_reachable h
  rcases hover with ⟨l, hl⟩ | hnull
  · rw [hl] at hinv
    obtain ⟨-, -, -, -, hended⟩ := hinv
    constructor
    · intro hlimit hpast
      have hlong := hpast.received.1
      have hshort := hlimit.returned l hl
      omega
    · intro hnot
      have hshort : (receivedBytes c.outcomes).length ≤ maxRequest := by
        rcases hended with hshort | ⟨before, bytes, hos, hbefore, hdone⟩
        · exact hshort
        · by_contra hlong
          rw [not_le, hos] at hlong
          rw [hos] at hdone
          exact hnot ⟨before, bytes, [], hos, hbefore, hlong, hdone⟩
      exact ⟨fun _ _ => hshort, fun hlong => absurd hshort (not_le.mpr hlong)⟩
  · rw [hnull] at hinv
    refine iff_of_true ⟨fun l hl => ?_, fun _ => hnull⟩ fun hpast => ?_
    · rw [hnull] at hl
      cases hl
    · have hdone := hpast.received.2
      have hopen : requestComplete (receivedBytes c.outcomes) = false := hinv
      rw [hopen] at hdone
      cases hdone

theorem exists_received (n : Nat) (hn : n + 18 ≤ 2 ^ 24) : ∃ c,
    (recvMachine fun _ => 0).Reachable c ∧ c.Over ∧
      ∃ l, c.point = .returned l ∧ receivedBytes c.outcomes = getHead n := by
  obtain ⟨r, hrecv, hbytes⟩ := recvRequest_getHead n hn
  obtain ⟨c, hc, hends⟩ := recvRequest_reaches (fun _ => 0) .blocking (.ofSegments [getHead n])
  rw [hrecv] at hends
  obtain ⟨l, hl, hreceived, -⟩ := hends
  exact ⟨c, hc, .inl ⟨l, hl⟩, l, hl, hreceived.trans hbytes⟩

/-- A head of exactly 10 MiB is below the limit; one of more than 11 MiB completes the request past
it. -/
theorem limit_enforced_iff_heads : ∃ c c' : RecvCall,
    (receivedBytes c.outcomes).length = maxRequest ∧ LimitEnforced c ∧
      (receivedBytes c'.outcomes).length = 11 * 1024 * 1024 + 18 ∧
      CompletesPastLimit c'.outcomes := by
  have hmax : maxRequest = 10 * 1024 * 1024 := rfl
  obtain ⟨c, hc, hover, l, hl, hreceived⟩ := exists_received (10 * 1024 * 1024 - 18) (by omega)
  obtain ⟨c', hc', hover', l', hl', hreceived'⟩ := exists_received (11 * 1024 * 1024) (by omega)
  have hlen : (receivedBytes c.outcomes).length = maxRequest := by
    rw [hreceived, length_getHead]
    omega
  have hlen' : (receivedBytes c'.outcomes).length = 11 * 1024 * 1024 + 18 := by
    rw [hreceived', length_getHead]
  have hshort : ¬ CompletesPastLimit c.outcomes := fun hpast => by
    have hlong := hpast.received.1
    omega
  refine ⟨c, c', hlen, (limit_enforced_iff hc hover).mpr hshort, hlen', ?_⟩
  by_contra hnot
  have hlimit := ((limit_enforced_iff hc' hover').mpr hnot).returned l' hl'
  omega

/-- A head of more than 11 MiB comes back whole when it arrives at once. -/
theorem long_head_returned :
    ¬ ∀ stale c, (recvMachine stale).Reachable c → c.Over → LimitEnforced c := by
  intro h
  obtain ⟨c, hc, hover, l, hl, hreceived⟩ := exists_received (11 * 1024 * 1024) (by omega)
  have hshort := (h _ c hc hover).returned l hl
  have hmax : maxRequest = 10 * 1024 * 1024 := rfl
  rw [hreceived, length_getHead] at hshort
  omega

end MinhServer
