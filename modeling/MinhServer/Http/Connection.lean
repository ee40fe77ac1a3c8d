import MinhServer.Http.Response

namespace MinhServer
open CString

/-- From `w` to `w'` the connection was not closed. -/
structure Keeps (conn : Int) (w w' : Worker) : Prop where
  fds : conn ∈ w.fds → conn ∈ w'.fds
  log : ∃ calls, w'.log = w.log ++ calls ∧ .close conn ∉ calls

/-- From `w` to `w'` the connection was closed, once or more often. -/
structure Closes (conn : Int) (w w' : Worker) : Prop where
  fds : conn ∉ w'.fds
  log : ∃ calls, w'.log = w.log ++ calls ∧ .close conn ∈ calls

section Calls
variable {conn : Int} {w w' w'' : Worker}

namespace Keeps

theorem refl (w : Worker) : Keeps conn w w := ⟨id, [], by simp, by simp⟩

theorem trans (h : Keeps conn w w') (h' : Keeps conn w' w'') : Keeps conn w w'' := by
  obtain ⟨calls, hlog, hcalls⟩ := h.log
  obtain ⟨calls', hlog', hcalls'⟩ := h'.log
  refine ⟨h'.fds ∘ h.fds, calls ++ calls', ?_, ?_⟩
  · rw [hlog', hlog, List.append_assoc]
  · simp [hcalls, hcalls']

theorem record (w : Worker) {c : Call} (hc : c ≠ .close conn) : Keeps conn w (w.record c) :=
  ⟨id, [c], rfl, by simpa using hc.symm⟩

theorem sends (h : OnlySends conn w w') : Keeps conn w w' := by
  obtain ⟨calls, hlog, hcalls⟩ := h.log
  refine ⟨fun hopen => by rw [h.fds]; exact hopen, calls, hlog, fun hclose => ?_⟩
  obtain ⟨accepted, hsend⟩ := hcalls _ hclose
  cases hsend

theorem opened (w : Worker) (name : Bytes) (res : HttpResponse) : Keeps conn w (w.opened name res) :=
  ⟨Finset.mem_insert_of_mem, [.fopen name (Worker.freeFd w.fds)], rfl, by simp⟩

theorem fclose (w : Worker) {fd : Int} (hfd : conn ≠ fd) : Keeps conn w (w.fclose fd) :=
  ⟨Finset.mem_erase_of_ne_of_mem hfd, [.fclose fd], rfl, by simp⟩

end Keeps

namespace Closes

theorem close (w : Worker) : Closes conn w (w.close conn) :=
  ⟨Finset.notMem_erase _ _, [.close conn], rfl, by simp⟩

theorem after (h : Keeps conn w w') (h' : Closes conn w' w'') : Closes conn w w'' := by
  obtain ⟨calls, hlog, -⟩ := h.log
  obtain ⟨calls', hlog', hcalls'⟩ := h'.log
  refine ⟨h'.fds, calls ++ calls', ?_, List.mem_append_right _ hcalls'⟩
  rw [hlog', hlog, List.append_assoc]

theorem again (h : Closes conn w w') (h' : Closes conn w' w'') : Closes conn w w'' := by
  obtain ⟨calls, hlog, hcalls⟩ := h.log
  obtain ⟨calls', hlog', -⟩ := h'.log
  refine ⟨h'.fds, calls ++ calls', ?_, List.mem_append_left _ hcalls⟩
  rw [hlog', hlog, List.append_assoc]

end Closes

theorem send_accepts (hopen : conn ∈ w.fds) (hsends : w.sends.head? ≠ some none) (bytes : Bytes) :
    (w.send conn bytes).1 = true := by
  unfold Worker.send
  rw [if_neg (not_not.mpr hopen)]
  split
  · rfl
  · next hnone => simp [hnone] at hsends
  · rfl

theorem send_fails (hsends : w.sends.head? = some none) (bytes : Bytes) :
    (w.send conn bytes).1 = false := by
  unfold Worker.send
  split
  · rfl
  · split
    · next hnil => simp [hnil] at hsends
    · rfl
    · next hsome => simp [hsome] at hsends

end Calls

/-- The response to a file, `dot` being the place of its suffix. -/
def fileResponse (req : HttpRequest) (filepath : Bytes) (dot : Nat) (file : OpenFile) :
    HttpResponse where
  statusCode := 200
  statusMessage := some (ascii "OK")
  contentLength := (file.size % 2 ^ 64).toNat
  contentType := some (mimeType (filepath.drop dot))
  keepAlive := !shouldCloseConnection req

/-- The file can be opened, its name has a suffix, and its header is sent. -/
structure SendsFile (filepath : Bytes) (disk : Disk) (w : Worker) : Prop where
  opens : (disk.fopen filepath).isSome
  suffix : 46 ∈ filepath
  header : w.sends.head? ≠ some none

def FindsFile (homeDir : Bytes) (disk : Disk) (req : HttpRequest) (w : Worker) : Prop :=
  ∃ path, requestPath req.path = some path ∧ disk.readable (homeDir ++ path.bytes) ∧
    SendsFile (homeDir ++ path.bytes) disk w

/-- The answer to `text` leaves the connection open: the request is well formed, asks for
keep-alive, and a GET finds its file. -/
def LeavesOpen (homeDir : Bytes) (disk : Disk) (text : Bytes) (w : Worker) : Prop :=
  ∃ code req, parseHttpRequest text .zeroed = .ok (code, req) ∧ 0 ≤ code ∧
    shouldCloseConnection req = false ∧ (route req = .get → FindsFile homeDir disk req w)

section Answers
variable {conn : Int} {homeDir filepath text : Bytes} {disk : Disk} {req req' : HttpRequest}
  {file : OpenFile} {dot : Nat} {w w' : Worker}

theorem exists_suffix (h : 46 ∈ filepath) : ∃ dot, strrchr filepath 46 = some dot := by
  apply Option.ne_none_iff_exists'.mp
  rw [ne_eq, strrchr_eq_none_iff, not_not]
  exact h

theorem suffix_mem (h : strrchr filepath 46 = some dot) : 46 ∈ filepath := by
  by_contra hno
  rw [strrchr_eq_none_iff.mpr hno] at h
  cases h

theorem sendStaticFile_suffix (hok : sendStaticFile conn req filepath disk w = .ok w')
    (hfile : (disk.fopen filepath).isSome) : 46 ∈ filepath := by
  obtain ⟨file, hfile⟩ := Option.isSome_iff_exists.mp hfile
  cases hdot : strrchr filepath 46 with
  | none =>
    simp only [sendStaticFile, hfile, hdot] at hok
    cases hok
  | some dot => exact suffix_mem hdot

theorem sendStaticFile_found (hfile : disk.fopen filepath = some file)
    (hdot : strrchr filepath 46 = some dot) :
    sendStaticFile conn req filepath disk w =
      let res := fileResponse req filepath dot file
      let v := ((w.opened filepath res).send conn (fileHeader res)).2
      if ((w.opened filepath res).send conn (fileHeader res)).1 then
        .ok ((sendFileData conn file.data v).fclose (Worker.freeFd w.fds))
      else .ok ((sendErrorResponse conn 404 (ascii "Not Found") v).close conn) := by
  unfold sendStaticFile
  simp only [hfile, hdot]
  rfl

theorem sendStaticFile_keeps (req : HttpRequest) (h : SendsFile filepath disk w) (hopen : conn ∈ w.fds) :
    ∃ w', sendStaticFile conn req filepath disk w = .ok w' ∧ Keeps conn w w' := by
  obtain ⟨file, hfile⟩ := Option.isSome_iff_exists.mp h.opens
  obtain ⟨dot, hdot⟩ := exists_suffix h.suffix
  have hfd : conn ≠ Worker.freeFd w.fds := fun heq => Worker.freeFd_notMem w.fds (heq ▸ hopen)
  rw [sendStaticFile_found hfile hdot]
  generalize fileResponse req filepath dot file = res
  have hopened : Keeps conn w (w.opened filepath res) := .opened w filepath res
  have hsent := send_accepts (w := w.opened filepath res) (hopened.fds hopen) h.header
    (fileHeader res)
  dsimp only
  rw [if_pos hsent]
  refine ⟨_, rfl, hopened.trans (.trans (.sends ?_) (.fclose _ hfd))⟩
  exact (OnlySends.send conn _ _).trans (OnlySends.fileData conn file.data _)

theorem sendStaticFile_closes (h : ¬ SendsFile filepath disk w)
    (hok : sendStaticFile conn req filepath disk w = .ok w') : Closes conn w w' := by
  cases hfile : disk.fopen filepath with
  | none =>
    rw [sendStaticFile, hfile] at hok
    cases hok
    exact .after (.sends (OnlySends.errorResponse conn 404 _ w)) (.close _)
  | some file =>
    have hsuffix := sendStaticFile_suffix hok (by simp [hfile])
    have hfails : w.sends.head? = some none := by
      by_contra hheader
      exact h ⟨by simp [hfile], hsuffix, hheader⟩
    obtain ⟨dot, hdot⟩ := exists_suffix hsuffix
    rw [sendStaticFile_found hfile hdot] at hok
    generalize fileResponse req filepath dot file = res at hok
    have hopened : Keeps conn w (w.opened filepath res) := .opened w filepath res
    have hsent : ((w.opened filepath res).send conn (fileHeader res)).1 = false :=
      send_fails (w := w.opened filepath res) hfails _
    dsimp only at hok
    rw [if_neg (Bool.eq_false_iff.mp hsent)] at hok
    cases hok
    refine .after (hopened.trans (.sends ?_)) (.close _)
    exact (OnlySends.send conn _ _).trans (OnlySends.errorResponse conn 404 (ascii "Not Found") _)

theorem getRequest_keeps (h : FindsFile homeDir disk req w) (hopen : conn ∈ w.fds) :
    ∃ req' w', handleGetRequest conn req homeDir disk w = .ok (req', w') ∧ Keeps conn w w' := by
  obtain ⟨path, hpath, hreadable, hfile⟩ := h
  obtain ⟨w', hw', hkeeps⟩ := sendStaticFile_keeps { req with path := path } hfile hopen
  refine ⟨{ req with path := path }, w', ?_, hkeeps⟩
  simp only [handleGetRequest, hpath, hreadable, if_true, hw']
  rfl

theorem getRequest_closes (h : ¬ FindsFile homeDir disk req w)
    (hok : handleGetRequest conn req homeDir disk w = .ok (req', w')) : Closes conn w w' := by
  obtain ⟨path, hpath, rfl, ⟨-, rfl⟩ | ⟨hreadable, hv⟩⟩ := handleGetRequest_cases hok
  · exact .after (.sends (OnlySends.errorResponse conn 404 _ w)) (.close _)
  · exact sendStaticFile_closes (fun hfile => h ⟨path, hpath, hreadable, hfile⟩) hv

theorem shouldClose_of_answer (h : answer conn req homeDir disk w = .ok (req', w')) :
    shouldCloseConnection req' = shouldCloseConnection req := by
  rcases answer_cases h with ⟨-, hget⟩ | ⟨-, rfl, -⟩ | ⟨-, rfl, -⟩
  · obtain ⟨path, -, rfl, -⟩ := handleGetRequest_cases hget
    rfl
  · rfl
  · rfl

theorem answer_keeps (h : route req = .get → FindsFile homeDir disk req w) (hopen : conn ∈ w.fds) :
    ∃ req' w', answer conn req homeDir disk w = .ok (req', w') ∧ Keeps conn w w' := by
  unfold answer
  split
  · next hroute => exact getRequest_keeps (h hroute) hopen
  · exact ⟨_, _, rfl, .refl w⟩
  · exact ⟨_, _, rfl, .refl w⟩
  · exact ⟨_, _, rfl, .sends (OnlySends.errorResponse conn 501 _ w)⟩

theorem answer_closes (hroute : route req = .get) (h : ¬ FindsFile homeDir disk req w)
    (hok : answer conn req homeDir disk w = .ok (req', w')) : Closes conn w w' := by
  unfold answer at hok
  rw [hroute] at hok
  exact getRequest_closes h hok

theorem handleHttpRequest_keeps (h : LeavesOpen homeDir disk text w) (hopen : conn ∈ w.fds) :
    ∃ req w', handleHttpRequest conn .zeroed text homeDir disk w = .ok (req, w') ∧
      shouldCloseConnection req = false ∧ Keeps conn w w' := by
  obtain ⟨code, req, hparse, hcode, hkeep, hget⟩ := h
  obtain ⟨req', w', hanswer, hkeeps⟩ := answer_keeps hget hopen
  have hkeep' := (shouldClose_of_answer hanswer).trans hkeep
  refine ⟨req', w', ?_, hkeep', hkeeps⟩
  rw [handleHttpRequest, hparse]
  simp only [Bind.bind, Except.bind, if_neg (not_lt.mpr hcode), hanswer, hkeep', Bool.false_eq_true,
    if_false]

theorem handleHttpRequest_closes (h : ¬ LeavesOpen homeDir disk text w) (hopen : conn ∈ w.fds)
    (hok : handleHttpRequest conn .zeroed text homeDir disk w = .ok (req', w')) :
    Closes conn w w' := by
  obtain ⟨code, req, hparse, ⟨-, -, rfl⟩ | ⟨hcode, v, hanswer, rfl⟩⟩ :=
    handleHttpRequest_cases hok
  · exact .after (.sends (OnlySends.errorResponse conn 400 _ w)) (.close _)
  · have hclose := shouldClose_of_answer hanswer
    by_cases hget : route req = .get → FindsFile homeDir disk req w
    · obtain ⟨r, u, hu, hkeeps⟩ := answer_keeps hget hopen
      rw [hanswer] at hu
      cases hu
      cases hshould : shouldCloseConnection req with
      | false => exact absurd ⟨code, req, hparse, hcode, hshould, hget⟩ h
      | true =>
        rw [if_pos (hclose.trans hshould)]
        exact .after hkeeps (.close v)
    · obtain ⟨hroute, hfile⟩ := Classical.not_imp.mp hget
      have hcloses := answer_closes hroute hfile hanswer
      split
      · exact hcloses.again (.close v)
      · exact hcloses

theorem handleHttpRequest_keeps_or_closes (hopen : conn ∈ w.fds)
    (hok : handleHttpRequest conn .zeroed text homeDir disk w = .ok (req', w')) :
    Keeps conn w w' ∨ Closes conn w w' := by
  by_cases h : LeavesOpen homeDir disk text w
  · obtain ⟨req, v, hv, -, hkeeps⟩ := handleHttpRequest_keeps h hopen
    rw [hok] at hv
    cases hv
    exact .inl hkeeps
  · exact .inr (handleHttpRequest_closes h hopen hok)

end Answers

end MinhServer
