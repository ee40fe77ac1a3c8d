import MinhServer.Http.Connection

namespace MinhServer
open CString

/-- The name meant: a directory has `index.html` put after it. -/
def resolvedName (homeDir path : Bytes) : Bytes :=
  if path.getLast? = some 47 then homeDir ++ path ++ ascii "index.html" else homeDir ++ path

/-- Whatever is on disk, `name` is what `handleGetRequest` checks and sends, and it comes to
it without an undefined step. -/
def LooksUp (conn : Int) (req : HttpRequest) (homeDir name : Bytes) : Prop :=
  ∃ req', ∀ disk w, handleGetRequest conn req homeDir disk w =
    if disk.readable name then (sendStaticFile conn req' name disk w).map fun w => (req', w)
    else .ok (req', (sendErrorResponse conn 404 (ascii "Not Found") w).close conn)

section Path
variable {path : CField 256}

theorem requestPath_noSlash (h : 47 ∉ path.bytes) : requestPath path = none := by
  unfold requestPath
  rw [strrchr_eq_none_iff.mpr h]

theorem requestPath_slash (h : 47 ∈ path.bytes) :
    requestPath path = some (if path.bytes.getLast? = some 47 then indexPath path else path) := by
  unfold requestPath
  cases hlast : strrchr path.bytes 47 with
  | none => exact absurd h (strrchr_eq_none_iff.mp hlast)
  | some lastPos =>
    obtain ⟨dir, file, hpath, rfl, hfile⟩ := strrchr_spec hlast
    have hdrop : path.bytes.drop (dir.length + 1) = file := by
      rw [hpath, ← List.drop_drop, List.drop_left]
      rfl
    dsimp only
    rw [hdrop]
    cases file with
    | nil =>
      have hends : path.bytes.getLast? = some 47 := by simp [hpath]
      rw [if_pos hends]
      rfl
    | cons b file =>
      have hends : path.bytes.getLast? ≠ some 47 := by
        intro heq
        rw [hpath, List.getLast?_append, List.getLast?_cons_cons,
          List.getLast?_eq_some_getLast (List.cons_ne_nil b file), Option.some_or] at heq
        exact hfile (List.mem_of_getLast? (List.getLast?_eq_some_getLast _ |>.trans heq))
      rw [if_neg hends]
      have hneq : eqNoCase (b :: file) [] 1 = false := by
        rfl
      simp [hneq]

theorem indexPath_bytes_iff (h : path.bytes.getLast? = some 47) :
    (indexPath path).bytes = path.bytes ++ ascii "index.html" ↔ path.bytes = [47] := by
  constructor
  · intro heq
    have hlen := congrArg List.length heq
    have hindex : (ascii "index.html").length = 10 := rfl
    simp only [indexPath, List.length_append, List.length_take, List.length_drop, hindex] at hlen
    have hpos : path.bytes ≠ [] := fun hnil => by simp [hnil] at h
    have := List.length_pos_iff.mpr hpos
    have hone : path.bytes.length = 1 := by omega
    obtain ⟨b, hb⟩ := List.length_eq_one_iff.mp hone
    rw [hb] at h ⊢
    simpa using h
  · intro heq
    simp [indexPath, heq]

end Path

section Name
variable {conn : Int} {req : HttpRequest} {homeDir name : Bytes}

theorem fopen_mem_of_found {disk : Disk} {file : OpenFile} {w w' : Worker}
    (hfile : disk.fopen name = some file) (hok : sendStaticFile conn req name disk w = .ok w') :
    ∃ fd, .fopen name fd ∈ w'.log := by
  refine ⟨Worker.freeFd w.fds, ?_⟩
  obtain ⟨dot, hdot⟩ := exists_suffix (sendStaticFile_suffix hok (by simp [hfile]))
  rw [sendStaticFile_found hfile hdot] at hok
  generalize fileResponse req name dot file = res at hok
  have hopened : .fopen name (Worker.freeFd w.fds) ∈ (w.opened name res).log := by
    simp [Worker.opened, Worker.fopen, Worker.record]
  have hsent := OnlySends.send conn (w.opened name res) (fileHeader res)
  dsimp only at hok
  split at hok
  · cases hok
    have hlog := (hsent.trans (OnlySends.fileData conn file.data _)).mem_log hopened
    simpa [Worker.fclose, Worker.record] using hlog
  · cases hok
    have hlog := (hsent.trans (OnlySends.errorResponse conn 404 (ascii "Not Found") _)).mem_log
      hopened
    simpa [Worker.close, Worker.record] using hlog

/-- Two names are told apart by a disk that has one of them. -/
theorem LooksUp.unique {name' : Bytes} (h : LooksUp conn req homeDir name)
    (h' : LooksUp conn req homeDir name') : name = name' := by
  by_contra hne
  obtain ⟨r, hr⟩ := h
  obtain ⟨r', hr'⟩ := h'
  let disk : Disk := ⟨fun n => n = name', fun _ => some ⟨0, []⟩⟩
  let w : Worker := { fds := ∅ }
  have hmissing := hr disk w
  have hfound := hr' disk w
  rw [if_neg (by simpa [disk] using hne)] at hmissing
  rw [hmissing, if_pos (by simp [disk])] at hfound
  obtain ⟨w', hw', heq⟩ := map_eq_ok.mp hfound.symm
  obtain ⟨fd, hmem⟩ := fopen_mem_of_found rfl hw'
  rw [(Prod.mk.inj heq).2] at hmem
  have hsends := OnlySends.errorResponse conn 404 (ascii "Not Found") w
  have hlog := hsends.fopen_mem (by simpa [Worker.close, Worker.record] using hmem)
  cases hlog

theorem looksUp_iff : LooksUp conn req homeDir name ↔
    ∃ path, requestPath req.path = some path ∧ name = homeDir ++ path.bytes := by
  constructor
  · intro h
    cases hpath : requestPath req.path with
    | none =>
      obtain ⟨r, hr⟩ := h
      have hno := hr ⟨fun _ => false, fun _ => none⟩ { fds := ∅ }
      simp [handleGetRequest, hpath] at hno
    | some path =>
      exact ⟨path, rfl, h.unique ⟨_, handleGetRequest_path hpath⟩⟩
  · rintro ⟨path, hpath, rfl⟩
    exact ⟨_, handleGetRequest_path hpath⟩

theorem resolvedName_iff {path : CField 256} :
    (∃ p, requestPath path = some p ∧ resolvedName homeDir path.bytes = homeDir ++ p.bytes) ↔
      47 ∈ path.bytes ∧ (path.bytes.getLast? = some 47 → path.bytes = [47]) := by
  by_cases hslash : 47 ∈ path.bytes
  · rw [requestPath_slash hslash]
    simp only [Option.some.injEq, exists_eq_left', hslash, true_and]
    by_cases hends : path.bytes.getLast? = some 47
    · rw [resolvedName, if_pos hends, if_pos hends, List.append_assoc, List.append_cancel_left_eq,
        eq_comm, indexPath_bytes_iff hends]
      simp [hends]
    · simp [resolvedName, hends]
  · simp [requestPath_noSlash hslash, hslash]

/-- The name meant is looked up, and no step on the way is undefined, exactly when the path has
a slash and, if it ends in one, is the root directory. -/
theorem get_looksUp_resolvedName_iff (conn : Int) (req : HttpRequest) (homeDir : Bytes) :
    LooksUp conn req homeDir (resolvedName homeDir req.path.bytes) ↔
      47 ∈ req.path.bytes ∧ (req.path.bytes.getLast? = some 47 → req.path.bytes = [47]) := by
  rw [looksUp_iff]
  exact resolvedName_iff

/-- For `/docs/` the name looked up is that of `/index.html`. -/
theorem subdirectory_not_resolved :
    ¬ ∀ conn homeDir request req, parseHttpRequest request .zeroed = .ok (0, req) →
      route req = .get → req.path.bytes ≠ [] → req.path.bytes.length ≤ 245 →
      (∀ b ∈ req.path.bytes, isspace b = false) →
      LooksUp conn req homeDir (resolvedName homeDir req.path.bytes) := by
  intro h
  let text := ascii "GET /docs/ HTTP/1.1\r\n\r\n"
  have hparse : (parseHttpRequest text .zeroed).map (fun r => (r.1, route r.2, r.2.path.bytes)) =
      .ok (0, .get, ascii "/docs/") := by decide +kernel
  obtain ⟨⟨code, req⟩, hreq, heq⟩ := map_eq_ok.mp hparse
  simp only [Prod.mk.injEq] at heq
  obtain ⟨rfl, hroute, hpath⟩ := heq
  have hlooks := h 5 (ascii "./www") text req hreq hroute
  rw [hpath] at hlooks
  have hname := hlooks (by decide) (by decide) (by decide +kernel)
  rw [← hpath, looksUp_iff, resolvedName_iff, hpath] at hname
  exact absurd hname.2 (by decide)

end Name

end MinhServer
