import MinhServer.Http.Response
import MinhServer.Library.LexicalPath

namespace MinhServer
open CString LexicalPath

theorem fopen_mem_sendStaticFile {conn fd : Int} {req : HttpRequest} {filepath name : Bytes}
    {disk : Disk} {w w' : Worker} (h : sendStaticFile conn req filepath disk w = .ok w')
    (hmem : .fopen name fd ∈ w'.log) :
    .fopen name fd ∈ w.log ∨ (name = filepath ∧ 46 ∈ filepath) := by
  obtain ⟨v, hv, rfl⟩ | ⟨hdot, res, v, hv, hw⟩ := sendStaticFile_cases h
  · exact .inl (hv.fopen_mem (by simpa [Worker.close, Worker.record] using hmem))
  · have hv' : .fopen name fd ∈ v.log := by
      rcases hw with rfl | rfl
      · simpa [Worker.fclose, Worker.record] using hmem
      · simpa [Worker.close, Worker.record] using hmem
    have hopened : .fopen name fd ∈ (w.opened filepath res).log := hv.fopen_mem hv'
    simp only [Worker.opened, Worker.fopen, Worker.record, List.mem_append, List.mem_singleton,
      Call.fopen.injEq] at hopened
    exact hopened.imp id fun hname => ⟨hname.1, hdot⟩

theorem fopen_mem_handleGetRequest {conn fd : Int} {req req' : HttpRequest}
    {homeDir name : Bytes} {disk : Disk} {w w' : Worker}
    (h : handleGetRequest conn req homeDir disk w = .ok (req', w'))
    (hmem : .fopen name fd ∈ w'.log) :
    .fopen name fd ∈ w.log ∨ ∃ path, requestPath req.path = some path ∧
      name = homeDir ++ path.bytes ∧ 46 ∈ name := by
  obtain ⟨path, hpath, -, ⟨-, rfl⟩ | ⟨-, hstatic⟩⟩ := handleGetRequest_cases h
  · have hsends := OnlySends.errorResponse conn 404 (ascii "Not Found") w
    exact .inl (hsends.fopen_mem (by simpa [Worker.close, Worker.record] using hmem))
  · refine (fopen_mem_sendStaticFile hstatic hmem).imp id fun hname => ?_
    obtain ⟨rfl, hdot⟩ := hname
    exact ⟨path, hpath, rfl, hdot⟩

/-- Whatever is on disk and whatever the socket takes, a file that a request for `path` opens
and sends lies inside `homeDir`. -/
def ServesOnlyInside (homeDir : Bytes) (path : CField 256) : Prop :=
  ∀ conn req req' disk w w', req.path = path → w.log = [] →
    handleGetRequest conn req homeDir disk w = .ok (req', w') →
    ∀ name fd bytes, .fopen name fd ∈ w'.log → .send conn (some bytes) ∈ w'.log →
      Loc.Inside (resolve homeDir) (resolve name)

/-- A disk on which every name is an empty file. -/
def openDisk : Disk := ⟨fun _ => true, fun _ => some ⟨0, []⟩⟩

theorem handleGetRequest_openDisk (conn : Int) {req : HttpRequest} (homeDir : Bytes)
    {path : CField 256} (hpath : requestPath req.path = some path)
    (hdot : 46 ∈ homeDir ++ path.bytes) :
    ∃ w', handleGetRequest conn req homeDir openDisk { fds := {conn} } =
        .ok ({ req with path := path }, w') ∧
      (∃ fd, .fopen (homeDir ++ path.bytes) fd ∈ w'.log) ∧
      ∃ bytes, .send conn (some bytes) ∈ w'.log := by
  cases hlast : strrchr (homeDir ++ path.bytes) 46 with
  | none => exact absurd hdot (strrchr_eq_none_iff.mp hlast)
  | some dot =>
    unfold handleGetRequest
    rw [hpath]
    simp only [openDisk, ↓reduceIte, sendStaticFile, hlast, Worker.send, Worker.fopen,
      Worker.record, List.nil_append, Finset.mem_insert, Finset.mem_singleton, or_true,
      not_true_eq_false, List.cons_append, sendFileData, ↓reduceDIte]
    refine ⟨_, rfl, ⟨Worker.freeFd {conn}, ?_⟩, ?_⟩
    · simp [Worker.fclose, Worker.record]
    · simp [Worker.fclose, Worker.record]

/-- The files opened and sent for a path stay inside the home directory exactly when the path
has no slash, the name no dot, or the walk along the path comes back to where it left. -/
theorem serves_only_inside_iff (homeDir : Bytes) (path : CField 256) :
    ServesOnlyInside homeDir path ↔
      ∀ p, requestPath path = some p → 46 ∉ homeDir ++ p.bytes ∨ StaysInside homeDir p.bytes := by
  constructor
  · intro h p hp
    by_cases hdot : 46 ∈ homeDir ++ p.bytes
    · have hreq : requestPath ({ HttpRequest.zeroed with path := path } : HttpRequest).path = some p := hp
      obtain ⟨w', hget, ⟨fd, hopen⟩, bytes, hsend⟩ := handleGetRequest_openDisk 5 homeDir hreq hdot
      have := h 5 _ _ openDisk _ w' rfl rfl hget _ fd bytes hopen hsend
      exact .inr ((inside_append_iff homeDir p.bytes).mp this)
    · exact .inl hdot
  · intro h conn req req' disk w w' hpath hlog hget name fd bytes hopen _
    rcases fopen_mem_handleGetRequest hget hopen with hmem | ⟨p, hp, rfl, hdot⟩
    · rw [hlog] at hmem
      cases hmem
    · rw [hpath] at hp
      have hstay := (h p hp).resolve_left (not_not_intro hdot)
      exact (inside_append_iff homeDir p.bytes).mpr hstay

/-- `GET /../secret.txt` under `./www` opens a file next to the resource directory. -/
theorem parent_path_leaves_home :
    ¬ ∀ homeDir request req, parseHttpRequest request .zeroed = .ok (0, req) → route req = .get →
      ServesOnlyInside homeDir req.path := by
  intro h
  let home := ascii "./www"
  let text := ascii "GET /../secret.txt HTTP/1.1\r\n\r\n"
  let name := ascii "./www/../secret.txt"
  have hparse : (parseHttpRequest text .zeroed).map (fun r => (r.1, route r.2, r.2.path.bytes)) =
      .ok (0, .get, ascii "/../secret.txt") := by decide +kernel
  cases hreq : parseHttpRequest text .zeroed with
  | error fault => simp [hreq, Except.map] at hparse
  | ok result =>
    obtain ⟨code, req⟩ := result
    simp only [hreq, Except.map, Except.ok.injEq, Prod.mk.injEq] at hparse
    obtain ⟨rfl, hroute, hpath⟩ := hparse
    have hrequest : requestPath req.path = some req.path := by
      unfold requestPath
      rw [hpath]
      rfl
    have hname : home ++ req.path.bytes = name := by
      rw [hpath]
      rfl
    obtain ⟨w', hget, ⟨fd, hopen⟩, bytes, hsend⟩ :=
      handleGetRequest_openDisk 5 home hrequest (by rw [hname]; decide)
    have hinside := h home text req hreq hroute 5 req _ openDisk _ w' rfl rfl hget _ fd bytes
      hopen hsend
    rw [hname] at hinside
    have hnames : ¬ (resolve home).names <+: (resolve name).names := by decide +kernel
    exact hnames hinside.names

end MinhServer
