import MinhServer.Rounds
import MinhServer.Select

namespace MinhServer
open CString Wire

/-- The calls that read, write, set up or close a descriptor. -/
def Call.uses (fd : Int) : Call → Bool
  | .setTimeout d _ | .recv d | .send d _ | .close d => d = fd
  | .fopen _ _ | .fclose _ => false

/-- Between `w` and `w'` the descriptor was closed once, and not used after that. -/
def Disciplined (fd : Int) (w w' : Worker) : Prop :=
  ∃ before after, w'.log = w.log ++ (before ++ .close fd :: after) ∧ .close fd ∉ before ∧
    ∀ c ∈ after, c.uses fd = false

section Discipline
variable {conn : Int} {v w w' : Worker}

theorem disciplined_last (w : Worker) : Disciplined conn w ((w.record (.recv conn)).close conn) :=
  ⟨[.recv conn], [], List.append_assoc _ _ _, by simp, by simp⟩

theorem Disciplined.earlier (hd : Disciplined conn v w') (h : Keeps conn w v) :
    Disciplined conn w w' := by
  obtain ⟨before, after, hlog, hbefore, hafter⟩ := hd
  obtain ⟨calls, hcalls, hclose⟩ := h.log
  refine ⟨calls ++ before, after, ?_, ?_, hafter⟩
  · rw [hlog, hcalls, List.append_assoc, List.append_assoc]
  · simp [hclose, hbefore]

/-- Only one of the calls is the close. -/
theorem Disciplined.count (hd : Disciplined conn w w') (calls : List Call)
    (hlog : w'.log = w.log ++ calls) : calls.count (.close conn) = 1 := by
  obtain ⟨before, after, hlog', hbefore, hafter⟩ := hd
  have hcalls : calls = before ++ .close conn :: after :=
    List.append_cancel_left (hlog.symm.trans hlog')
  have hclose : .close conn ∉ after := by
    intro hmem
    have huses := hafter _ hmem
    simp [Call.uses] at huses
  rw [hcalls, List.count_append, List.count_cons_self, List.count_eq_zero.mpr hbefore,
    List.count_eq_zero.mpr hclose]

theorem not_disciplined_of_twice (h : Closes conn w v) (h' : Closes conn v w') :
    ¬ Disciplined conn w w' := by
  obtain ⟨calls, hlog, hclose⟩ := h.log
  obtain ⟨calls', hlog', hclose'⟩ := h'.log
  intro hd
  have hcount := hd.count (calls ++ calls') (by rw [hlog', hlog, List.append_assoc])
  have hpos := List.count_pos_iff.mpr hclose
  have hpos' := List.count_pos_iff.mpr hclose'
  rw [List.count_append] at hcount
  omega

/-- What was done before the close is of no consequence. -/
theorem Disciplined.later (hd : Disciplined conn w w') (h : Keeps conn w v)
    (hv : Closes conn v w') : Disciplined conn v w' := by
  obtain ⟨before, after, hlog, hbefore, hafter⟩ := hd
  obtain ⟨calls, hcalls, hclose⟩ := h.log
  obtain ⟨rest, hrest, -⟩ := hv.log
  have heq : calls ++ rest = before ++ .close conn :: after := by
    rw [hrest, hcalls, List.append_assoc] at hlog
    exact List.append_cancel_left hlog
  rcases List.append_eq_append_iff.mp heq with ⟨tail, rfl, hrest'⟩ | ⟨tail, hcalls', hclosed⟩
  · refine ⟨tail, after, by rw [hrest, hrest'], ?_, hafter⟩
    exact fun hmem => hbefore (List.mem_append_right _ hmem)
  · cases tail with
    | nil =>
      refine ⟨[], after, ?_, List.not_mem_nil, hafter⟩
      rw [hrest, show rest = .close conn :: after from hclosed.symm]
      rfl
    | cons c tail =>
      rw [List.cons_append] at hclosed
      obtain ⟨rfl, -⟩ := List.cons.inj hclosed
      exact absurd (by simp [hcalls']) hclose

end Discipline

section Loop
variable {mode : Mode} {conn : Int} {homeDir : Bytes} {disk : Disk} {p : Peer Byte} {w : Worker}
  {served : List HttpRequest} {s : Session}

theorem keeps_record_recv (conn : Int) (w : Worker) : Keeps conn w (w.record (.recv conn)) :=
  .record w (by simp)

theorem keeps_setTimeout (conn : Int) (w : Worker) (seconds : Nat) :
    Keeps conn w (w.record (.setTimeout conn seconds)) := .record w (by simp)

theorem serveRequests_closes (h : serveRequests mode conn homeDir disk p w served = .ok s) :
    Closes conn w s.worker := by
  induction p, w using loop_induction mode conn generalizing served with
  | last p w p' hlast =>
    rw [serveRequests_last hlast, Except.ok.injEq] at h
    rw [← h]
    exact .after (keeps_record_recv conn w) (.close _)
  | http p w r p' hr ht htype ih =>
    rw [serveRequests_http hr ht htype] at h
    obtain ⟨⟨req, w'⟩, hhandle, h⟩ := bind_eq_ok.mp h
    have hrest : Closes conn w' s.worker := by
      dsimp only at h
      split at h
      · cases h
        exact .close w'
      · exact .after (keeps_setTimeout conn w' 5) (ih _ h)
    have hopen : conn ∈ (w.record (.recv conn)).fds := open_of_receive hr
    rcases handleHttpRequest_keeps_or_closes hopen hhandle with hw' | hw'
    · exact .after (keeps_record_recv conn w) (.after hw' hrest)
    · exact .after (keeps_record_recv conn w) (hw'.again hrest)
  | other p w r p' hr ht htype ih =>
    rw [serveRequests_other hr ht htype] at h
    have hgoes := (keeps_record_recv conn w).trans (keeps_setTimeout conn _ 5)
    exact .after hgoes (ih _ h)

theorem serveRequests_disciplined (served : List HttpRequest)
    (h : ∀ text v, ComesTo mode conn homeDir disk (p, w) text v → LeavesOpen homeDir disk text v) :
    ∃ s, serveRequests mode conn homeDir disk p w served = .ok s ∧ Disciplined conn w s.worker := by
  induction p, w using loop_induction mode conn generalizing served with
  | last p w p' hlast => exact ⟨_, serveRequests_last hlast, disciplined_last w⟩
  | http p w r p' hr ht htype ih =>
    have hleaves := h _ _ (comesTo_of_handles (.intro hr htype))
    have hopen : conn ∈ (w.record (.recv conn)).fds := open_of_receive hr
    obtain ⟨req, w', hhandle, hkeep, hw'⟩ := handleHttpRequest_keeps hleaves hopen
    have hnext : NextRound mode conn homeDir disk (p, w) _ := .http hr htype hhandle hkeep
    obtain ⟨s, hs, hd⟩ := ih _ (served ++ [req]) fun text v hv => h text v (comesTo_of_next hnext hv)
    have hgoes := hw'.trans (keeps_setTimeout conn w' 5)
    refine ⟨s, ?_, hd.earlier ((keeps_record_recv conn w).trans hgoes)⟩
    rw [serveRequests_http hr ht htype, hhandle]
    simp only [Bind.bind, Except.bind, hkeep, Bool.false_eq_true, if_false, hs]
  | other p w r p' hr ht htype ih =>
    have hnext : NextRound mode conn homeDir disk (p, w) _ := .other hr ht htype
    obtain ⟨s, hs, hd⟩ := ih _ served fun text v hv => h text v (comesTo_of_next hnext hv)
    refine ⟨s, ?_, hd.earlier ((keeps_record_recv conn w).trans (keeps_setTimeout conn _ 5))⟩
    rw [serveRequests_other hr ht htype, hs]

/-- An answer that closes the connection leaves a second close to the loop. -/
theorem leavesOpen_of_disciplined {text : Bytes} {v : Worker}
    (hok : serveRequests mode conn homeDir disk p w served = .ok s)
    (hd : Disciplined conn w s.worker) (hv : ComesTo mode conn homeDir disk (p, w) text v) :
    LeavesOpen homeDir disk text v := by
  induction p, w using loop_induction mode conn generalizing served with
  | last p w p' hlast => exact absurd hv (not_comesTo_of_last hlast)
  | http p w r p' hr ht htype ih =>
    rw [serveRequests_http hr ht htype] at hok
    obtain ⟨⟨req, w'⟩, hhandle, hok⟩ := bind_eq_ok.mp hok
    have hopen : conn ∈ (w.record (.recv conn)).fds := open_of_receive hr
    have hrest : Closes conn w' s.worker := by
      dsimp only at hok
      split at hok
      · cases hok
        exact .close w'
      · exact .after (keeps_setTimeout conn w' 5) (serveRequests_closes hok)
    have hleaves : LeavesOpen homeDir disk r.memory (w.record (.recv conn)) := by
      -- otherwise the answer closes it, and the rest of the loop does so again
      by_contra hnot
      have hcloses := handleHttpRequest_closes hnot hopen hhandle
      exact not_disciplined_of_twice (.after (keeps_record_recv conn w) hcloses) hrest hd
    obtain ⟨req', v', hhandle', hkeep, hw'⟩ := handleHttpRequest_keeps hleaves hopen
    rw [hhandle] at hhandle'
    cases hhandle'
    rcases comesTo_cases hv with hhandles | ⟨y, hnext, hy⟩
    · obtain ⟨rfl, rfl⟩ := hhandles.text_eq hr
      exact hleaves
    · dsimp only at hok
      rw [if_neg (by simp [hkeep])] at hok
      rw [← NextRound.unique (.http hr htype hhandle hkeep) hnext] at hy
      have hgoes := (keeps_record_recv conn w).trans (hw'.trans (keeps_setTimeout conn w' 5))
      exact ih _ hok (hd.later hgoes (serveRequests_closes hok)) hy
  | other p w r p' hr ht htype ih =>
    rw [serveRequests_other hr ht htype] at hok
    rcases comesTo_cases hv with hhandles | ⟨y, hnext, hy⟩
    · obtain ⟨rfl, -⟩ := hhandles.text_eq hr
      exact absurd hhandles.isHttp htype
    · rw [← NextRound.unique (.other hr ht htype) hnext] at hy
      have hgoes := (keeps_record_recv conn w).trans (keeps_setTimeout conn _ 5)
      exact ih _ hok (hd.later hgoes (serveRequests_closes hok)) hy

end Loop

theorem serveClient_closes_twice {homeDir : Bytes} {visit : Visit} {s t : SelectState}
    {i : Fin maxClients} (hi : 0 < s.server.fd i) (h : serveClient homeDir visit s i = .ok t) :
    ∃ v, Closes (s.server.fd i) s.worker v ∧ Closes (s.server.fd i) v t.worker := by
  rw [serveClient_eq] at h
  obtain ⟨session, hsession, h⟩ := bind_eq_ok.mp h
  obtain ⟨masterFds, -, rfl⟩ :=
    removeClient_spec (s := (s.notify _).withWorker session.worker) hi.le h
  refine ⟨session.worker, ?_, .close session.worker⟩
  have hstart : Keeps (s.server.fd i) s.worker
      ({ s.worker with sends := visit.sends }.record (.setTimeout (s.server.fd i) 30)) :=
    ⟨id, _, rfl, by simp⟩
  exact .after hstart (serveRequests_closes hsession)

/-- In blocking mode the descriptor is closed once and not used after that if and only if each
request that the loop comes to leaves it open; in select mode it never is. -/
theorem descriptor_disciplined_iff (conn : Int) (homeDir : Bytes) (disk : Disk) (peer : Peer Byte)
    (w : Worker) :
    ((∃ s, serveBlocking conn homeDir disk peer w = .ok s ∧ Disciplined conn w s.worker) ↔
      ∀ text v, ComesTo .blocking conn homeDir disk (peer, w.record (.setTimeout conn 30)) text v →
        LeavesOpen homeDir disk text v) ∧
    ∀ (visit : Visit) (s : SelectState) (i : Fin maxClients), 0 < s.server.fd i →
      ¬ ∃ t, serveClient homeDir visit s i = .ok t ∧
        Disciplined (s.server.fd i) s.worker t.worker := by
  have hstart := keeps_setTimeout conn w 30
  refine ⟨⟨?_, fun h => ?_⟩, ?_⟩
  · rintro ⟨s, hs, hd⟩ text v hv
    exact leavesOpen_of_disciplined hs (hd.later hstart (serveRequests_closes hs)) hv
  · obtain ⟨s, hs, hd⟩ := serveRequests_disciplined [] h
    exact ⟨s, hs, hd.earlier hstart⟩
  · rintro visit s i hi ⟨t, ht, hd⟩
    obtain ⟨v, hv, hv'⟩ := serveClient_closes_twice hi ht
    exact not_disciplined_of_twice hv hv' hd

/-- The answer to a GET for a missing file closes the connection, and the loop, which goes on
to read from it, closes it once more. -/
theorem missing_file_closed_twice : ¬ ∀ conn homeDir disk peer w, conn ∈ w.fds →
    ∃ s, serveBlocking conn homeDir disk peer w = .ok s ∧ Disciplined conn w s.worker := by
  intro h
  let peer : Peer Byte :=
    ⟨[.data (ascii "GET /a.txt HTTP/1.1\r\nConnection: keep-alive\r\n\r\n")], .close⟩
  let disk : Disk := ⟨fun _ => false, fun _ => none⟩
  have hrun : (serveBlocking 5 [] disk peer { fds := {5} }).map
      (·.worker.log.count (.close 5)) = .ok 2 := by
    decide +kernel
  obtain ⟨s, hs, htwice⟩ := map_eq_ok.mp hrun
  obtain ⟨s', hs', hd⟩ := h 5 [] disk peer { fds := {5} } (by simp)
  rw [hs] at hs'
  cases hs'
  rw [hd.count _ (List.nil_append _).symm] at htwice
  omega

end MinhServer
