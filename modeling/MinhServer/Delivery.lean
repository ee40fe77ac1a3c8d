import MinhServer.ConnectionHeader

namespace MinhServer
open CString

/-- One response header, for a body of `n` bytes. -/
def IsResponseHeader (header : Bytes) (n : Nat) : Prop :=
  ∃ before after, (∀ l ∈ before ++ after, l ≠ [] ∧ 13 ∉ l ∧ ¬ ascii "Content-Length" <+: l) ∧
    header = joinLines (before ++ (ascii "Content-Length: " ++ printInt n) :: after) ++ crlf

/-- A regular file: it has the size of its content, which is a `long`. -/
def OpenFile.IsRegular (file : OpenFile) : Prop :=
  file.size = file.data.length ∧ file.data.length < 2 ^ 63

/-- After `sendStaticFile` the socket has taken one header and the content, or the connection
is closed; the file is closed in either case. -/
def DeliversWhole (conn : Int) (req : HttpRequest) (filepath : Bytes) (disk : Disk)
    (data : Bytes) (w : Worker) : Prop :=
  ∃ w', sendStaticFile conn req filepath disk w = .ok w' ∧
    ((∃ header, IsResponseHeader header data.length ∧ responseBytes w w' = header ++ data) ∨
      conn ∉ w'.fds) ∧
    Worker.freeFd w.fds ∉ w'.fds

/-- What `fread` reads at a time. -/
def blocks (data : Bytes) : List Bytes :=
  if _h : data = [] then [] else data.take 4096 :: blocks (data.drop 4096)
termination_by data.length
decreasing_by
  have := List.length_pos_iff.mpr _h
  rw [List.length_drop]
  omega

/-- The coming `send` calls take each piece whole. -/
def TakesAll : List (Option Nat) → List Bytes → Prop
  | _, [] => True
  | [], _ :: _ => True
  | none :: _, _ :: _ => False
  | some n :: sends, piece :: pieces => piece.length ≤ n ∧ TakesAll sends pieces

section Accepted
variable {conn : Int} {w w' w'' : Worker} {data piece : Bytes} {pieces : List Bytes}

theorem accepted_eq_nil {c : Call} (h : c.isSend = false) : c.accepted = [] := by
  cases c with
  | send fd accepted => cases h
  | _ => rfl

theorem responseBytes_of_log {calls : List Call} (h : w'.log = w.log ++ calls) :
    responseBytes w w' = calls.flatMap Call.accepted := by
  rw [responseBytes, sentBetween, h, List.drop_left]
  clear h
  induction calls with
  | nil => rfl
  | cons c calls ih =>
    cases hc : c.isSend with
    | true => rw [List.filter_cons_of_pos hc, List.flatMap_cons, List.flatMap_cons, ih]
    | false =>
      rw [List.filter_cons_of_neg (by simp [hc]), List.flatMap_cons, ih, accepted_eq_nil hc,
        List.nil_append]

theorem responseBytes_trans (h : w.log <+: w'.log) (h' : w'.log <+: w''.log) :
    responseBytes w w'' = responseBytes w w' ++ responseBytes w' w'' := by
  obtain ⟨calls, hcalls⟩ := h
  obtain ⟨calls', hcalls'⟩ := h'
  have hboth : w''.log = w.log ++ (calls ++ calls') := by
    rw [← hcalls', ← hcalls, List.append_assoc]
  rw [responseBytes_of_log hcalls.symm, responseBytes_of_log hcalls'.symm,
    responseBytes_of_log hboth, List.flatMap_append]

theorem OnlySends.log_extends (h : OnlySends conn w w') : w.log <+: w'.log := by
  obtain ⟨calls, hlog, -⟩ := h.log
  exact ⟨calls, hlog.symm⟩

@[simp] theorem takesAll_nil (sends : List (Option Nat)) : TakesAll sends [] := by
  cases sends <;> trivial

theorem takesAll_of_silent (pieces : List Bytes) : TakesAll [] pieces := by
  cases pieces <;> trivial

theorem send_cases (hopen : conn ∈ w.fds) (piece : Bytes) :
    ((w.send conn piece).1 = false ∧ w.sends.head? = some none ∧
        responseBytes w (w.send conn piece).2 = []) ∨
      ((w.send conn piece).1 = true ∧ ∃ n, responseBytes w (w.send conn piece).2 = piece.take n ∧
        ∀ pieces, TakesAll w.sends (piece :: pieces) ↔
          piece.length ≤ n ∧ TakesAll (w.send conn piece).2.sends pieces) := by
  unfold Worker.send
  rw [if_neg (not_not.mpr hopen)]
  cases hsends : w.sends with
  | nil =>
    refine .inr ⟨rfl, piece.length, ?_, fun pieces => ?_⟩
    · rw [responseBytes_of_log rfl]
      simp [Call.accepted]
    · simp [Worker.record, hsends, takesAll_of_silent]
  | cons outcome rest =>
    cases outcome with
    | none =>
      refine .inl ⟨rfl, rfl, ?_⟩
      rw [responseBytes_of_log rfl]
      rfl
    | some n =>
      refine .inr ⟨rfl, n, ?_, fun pieces => Iff.rfl⟩
      rw [responseBytes_of_log rfl]
      simp [Call.accepted]

/-- From `w` to `w'` the pieces were sent one by one, until a `send` failed. -/
structure Sends (w w' : Worker) (pieces : List Bytes) : Prop where
  le : (responseBytes w w').length ≤ pieces.flatten.length
  whole : TakesAll w.sends pieces → responseBytes w w' = pieces.flatten
  takes : (responseBytes w w').length = pieces.flatten.length → TakesAll w.sends pieces

namespace Sends

theorem nil (w : Worker) : Sends w w [] := by
  have hnone : responseBytes w w = [] := responseBytes_of_log (List.append_nil w.log).symm
  exact ⟨by simp [hnone], fun _ => hnone, fun _ => takesAll_nil _⟩

theorem failed (hopen : conn ∈ w.fds) (hne : piece ≠ []) (hfails : (w.send conn piece).1 = false) :
    Sends w (w.send conn piece).2 (piece :: pieces) := by
  have hpos := List.length_pos_iff.mpr hne
  rcases send_cases hopen piece with ⟨-, hhead, hnone⟩ | ⟨hsent, -⟩
  · obtain ⟨rest, hrest⟩ := List.head?_eq_some_iff.mp hhead
    refine ⟨by simp [hnone], fun htakes => ?_, fun hlen => ?_⟩
    · rw [hrest] at htakes
      exact htakes.elim
    · rw [hnone, List.flatten_cons, List.length_append, List.length_nil] at hlen
      omega
  · rw [hfails] at hsent
    cases hsent

theorem cons (hopen : conn ∈ w.fds) (hsent : (w.send conn piece).1 = true)
    (hlog : (w.send conn piece).2.log <+: w'.log) (h : Sends (w.send conn piece).2 w' pieces) :
    Sends w w' (piece :: pieces) := by
  rcases send_cases hopen piece with ⟨hfails, -⟩ | ⟨-, n, haccepted, htakes⟩
  · rw [hsent] at hfails
    cases hfails
  · have hbytes := responseBytes_trans (OnlySends.send conn w piece).log_extends hlog
    rw [haccepted] at hbytes
    have hle := h.le
    have hpart : (piece.take n).length ≤ piece.length := by simp
    refine ⟨?_, fun hall => ?_, fun hlen => ?_⟩
    · rw [hbytes, List.length_append, List.flatten_cons, List.length_append]
      omega
    · obtain ⟨hn, hrest⟩ := (htakes pieces).mp hall
      rw [hbytes, h.whole hrest, List.take_of_length_le hn, List.flatten_cons]
    · rw [hbytes, List.length_append, List.flatten_cons, List.length_append] at hlen
      -- neither part can make up for the other
      have hfirst : (piece.take n).length = piece.length := by omega
      rw [List.length_take] at hfirst
      exact (htakes pieces).mpr ⟨by omega, h.takes (by rw [List.length_take] at hlen; omega)⟩

end Sends

theorem flatten_blocks (data : Bytes) : (blocks data).flatten = data := by
  induction data using blocks.induct with
  | case1 =>
    rw [blocks, dif_pos rfl]
    rfl
  | case2 data hne ih => rw [blocks, dif_neg hne, List.flatten_cons, ih, List.take_append_drop]

theorem sends_fileData (hopen : conn ∈ w.fds) (data : Bytes) :
    Sends w (sendFileData conn data w) (blocks data) := by
  induction data using blocks.induct generalizing w with
  | case1 =>
    rw [blocks, sendFileData, dif_pos rfl, dif_pos rfl]
    exact .nil w
  | case2 data hne ih =>
    have hblock : data.take 4096 ≠ [] := by simp [hne]
    rw [blocks, sendFileData, dif_neg hne, dif_neg hne]
    dsimp only
    split
    · next hsent =>
      have hsend := OnlySends.send conn w (data.take 4096)
      have hrest := ih (w := (w.send conn (data.take 4096)).2) (hsend.fds ▸ hopen)
      exact .cons hopen hsent (OnlySends.fileData conn _ _).log_extends hrest
    · next hfails => exact .failed hopen hblock (Bool.eq_false_iff.mpr hfails)

end Accepted

/-- Whatever follows a header, its blank line is the first one. -/
theorem IsResponseHeader.headEnd {header : Bytes} {n : Nat} (h : IsResponseHeader header n)
    (body : Bytes) : ∃ e, strstr (header ++ body) headEnd = some e ∧ e + 4 = header.length := by
  obtain ⟨before, after, hlines, rfl⟩ := h
  have hother : ∀ l ∈ before ++ after, IsLine l := fun l hl =>
    .of_notMem (hlines l hl).1 (hlines l hl).2.1
  have hall : ∀ l ∈ before ++ (ascii "Content-Length: " ++ printInt n) :: after, IsLine l := by
    intro l hl
    rcases List.mem_append.mp hl with hl | hl
    · exact hother l (List.mem_append_left _ hl)
    · rcases List.mem_cons.mp hl with rfl | hl
      · exact isLine_contentLength n
      · exact hother l (List.mem_append_right _ hl)
  obtain ⟨e, he, hlen, -⟩ := headEnd_joinLines hall (by simp) body
  exact ⟨e, he, hlen⟩

theorem IsResponseHeader.length_eq {header header' : Bytes} {n n' : Nat}
    (h : IsResponseHeader header n) (h' : IsResponseHeader header' n') (hp : header' <+: header) :
    header'.length = header.length := by
  obtain ⟨t, rfl⟩ := hp
  obtain ⟨e, he, hlen⟩ := h.headEnd []
  obtain ⟨e', he', hlen'⟩ := h'.headEnd t
  rw [List.append_nil, he', Option.some.injEq] at he
  omega

theorem contentLength_fileResponse {req : HttpRequest} {filepath : Bytes} {dot : Nat}
    {file : OpenFile} (hfile : file.IsRegular) :
    ((fileResponse req filepath dot file).contentLength : Int).bmod (2 ^ 64) = file.data.length := by
  obtain ⟨hsize, hlong⟩ := hfile
  have hmod : (file.size % 2 ^ 64).toNat = file.data.length := by omega
  have hres : (fileResponse req filepath dot file).contentLength = file.data.length := hmod
  rw [hres, Int.bmod_eq_of_le] <;> omega

theorem isResponseHeader_fileHeader (req : HttpRequest) (filepath : Bytes) (dot : Nat)
    {file : OpenFile} (hfile : file.IsRegular) :
    IsResponseHeader (fileHeader (fileResponse req filepath dot file)) file.data.length := by
  rw [fileHeader_eq, contentLength_fileResponse hfile]
  have hcode := notMem_printInt 200
  have htype := notMem_mimeType (filepath.drop dot)
  have hs : 13 ∉ ascii "HTTP/1.1 " ∧ 13 ∉ ascii " " ∧ 13 ∉ ascii "OK" ∧
      13 ∉ ascii "Content-Type: " := by decide
  refine ⟨[ascii "HTTP/1.1 " ++ printInt 200 ++ ascii " " ++ ascii "OK", ascii "Server: minhServer",
    ascii "Content-Type: " ++ mimeType (filepath.drop dot)], [ascii "Connection: " ++
      if !shouldCloseConnection req then ascii "keep-alive" else ascii "close"], ?_, rfl⟩
  intro l hl
  simp only [List.cons_append, List.nil_append, List.mem_cons, List.not_mem_nil, or_false] at hl
  rcases hl with rfl | rfl | rfl | rfl
  · refine ⟨by simp [ascii], by simp [hs, hcode], ?_⟩
    rintro ⟨t, ht⟩
    have hfirst : (some 67 : Option Byte) = some 72 := congrArg (·[0]?) ht
    exact absurd hfirst (by decide)
  · decide
  · refine ⟨by simp [ascii], by simp [hs, htype], ?_⟩
    rintro ⟨t, ht⟩
    have hninth : (some 76 : Option Byte) = some 84 := congrArg (·[8]?) ht
    exact absurd hninth (by decide)
  · cases shouldCloseConnection req <;> decide

section Files
variable {conn : Int} {req : HttpRequest} {filepath : Bytes} {disk : Disk} {w : Worker}
  {file : OpenFile} {dot : Nat}

theorem whole_iff {v : Worker} {header data : Bytes} (hopen : conn ∈ w.fds)
    (hheader : IsResponseHeader header data.length) (hsent : (w.send conn header).1 = true)
    (hlog : (w.send conn header).2.log <+: v.log)
    (hrest : Sends (w.send conn header).2 v (blocks data)) :
    (∃ header', IsResponseHeader header' data.length ∧ responseBytes w v = header' ++ data) ↔
      TakesAll w.sends (header :: blocks data) := by
  have hsends : Sends w v (header :: blocks data) := .cons hopen hsent hlog hrest
  have hflat : (header :: blocks data).flatten = header ++ data := by
    rw [List.flatten_cons, flatten_blocks]
  constructor
  · rintro ⟨header', hheader', hbytes⟩
    rcases send_cases hopen header with ⟨hfails, -⟩ | ⟨-, n, haccepted, -⟩
    · rw [hsent] at hfails
      cases hfails
    · have htrans := responseBytes_trans (OnlySends.send conn w header).log_extends hlog
      have hle := hrest.le
      rw [flatten_blocks] at hle
      rw [hbytes, haccepted] at htrans
      -- the rest is no longer than the content, so `header'` lies in what was taken of `header`
      have hlen := congrArg List.length htrans
      rw [List.length_append, List.length_append] at hlen
      have hpart : header' <+: header.take n :=
        List.prefix_of_prefix_length_le ⟨data, htrans⟩ (List.prefix_append _ _) (by omega)
      have heq := hheader.length_eq hheader' (hpart.trans (List.take_prefix n header))
      apply hsends.takes
      rw [hbytes, hflat, List.length_append, List.length_append, heq]
  · intro htakes
    exact ⟨header, hheader, (hsends.whole htakes).trans hflat⟩

theorem responseBytes_file {res : HttpResponse} {v : Worker} (fd : Int)
    (h : (w.opened filepath res).log <+: v.log) :
    responseBytes w (v.fclose fd) = responseBytes (w.opened filepath res) v := by
  have hopened : w.log <+: (w.opened filepath res).log := ⟨_, rfl⟩
  have hclosed : v.log <+: (v.fclose fd).log := ⟨_, rfl⟩
  have hnone : responseBytes w (w.opened filepath res) = [] := by
    rw [responseBytes_of_log rfl]
    rfl
  have hnone' : responseBytes v (v.fclose fd) = [] := by
    rw [responseBytes_of_log rfl]
    rfl
  rw [responseBytes_trans hopened (h.trans hclosed), responseBytes_trans h hclosed, hnone, hnone',
    List.nil_append, List.append_nil]

theorem file_open_of_fails {res : HttpResponse} {v : Worker} (hopen : conn ∈ w.fds)
    (hv : OnlySends conn (w.opened filepath res) v) :
    Worker.freeFd w.fds ∈ (v.close conn).fds := by
  have hne : Worker.freeFd w.fds ≠ conn := fun heq => Worker.freeFd_notMem w.fds (heq ▸ hopen)
  apply Finset.mem_erase_of_ne_of_mem hne
  rw [hv.fds]
  exact Finset.mem_insert_self _ _

theorem deliversWhole_iff (hopen : conn ∈ w.fds) (hfound : disk.fopen filepath = some file)
    (hfile : file.IsRegular) (hdot : strrchr filepath 46 = some dot) :
    DeliversWhole conn req filepath disk file.data w ↔
      TakesAll w.sends (fileHeader (fileResponse req filepath dot file) :: blocks file.data) := by
  have hne : conn ≠ Worker.freeFd w.fds := fun heq => Worker.freeFd_notMem w.fds (heq ▸ hopen)
  have hheader := isResponseHeader_fileHeader req filepath dot hfile
  simp only [DeliversWhole, sendStaticFile_found hfound hdot]
  generalize fileResponse req filepath dot file = res at hheader ⊢
  have hopened : conn ∈ (w.opened filepath res).fds := Finset.mem_insert_of_mem hopen
  have hsend := OnlySends.send conn (w.opened filepath res) (fileHeader res)
  split
  · next hsent =>
    generalize hv : ((w.opened filepath res).send conn (fileHeader res)).2 = v at hsend
    have hdata := OnlySends.fileData conn file.data v
    have hwhole := whole_iff hopened hheader hsent (hv ▸ hdata.log_extends)
      (hv ▸ sends_fileData (hsend.fds ▸ hopened) file.data)
    rw [hv] at hwhole
    have hstays : conn ∈ ((sendFileData conn file.data v).fclose (Worker.freeFd w.fds)).fds := by
      apply Finset.mem_erase_of_ne_of_mem hne
      rw [hdata.fds, hsend.fds]
      exact hopened
    have hclosed : Worker.freeFd w.fds ∉
        ((sendFileData conn file.data v).fclose (Worker.freeFd w.fds)).fds :=
      Finset.notMem_erase _ _
    have hbytes := responseBytes_file (Worker.freeFd w.fds) (hsend.trans hdata).log_extends
    simp only [Except.ok.injEq, exists_eq_left', hbytes, hstays, not_true_eq_false, or_false,
      hclosed, not_false_eq_true, and_true]
    exact hwhole
  · next hfails =>
    refine iff_of_false ?_ ?_
    · rintro ⟨w', hok, -, hclosed⟩
      cases hok
      exact hclosed (file_open_of_fails hopen (hsend.trans (OnlySends.errorResponse conn 404 _ _)))
    · intro htakes
      rcases send_cases hopened (fileHeader res) with ⟨-, hhead, -⟩ | ⟨hsent, -⟩
      · obtain ⟨rest, hrest⟩ := List.head?_eq_some_iff.mp hhead
        rw [show w.sends = none :: rest from hrest] at htakes
        exact htakes.elim
      · exact hfails hsent

end Files

/-- A regular file is delivered whole, or the connection closed, and the file closed, exactly
when its name has a suffix and each `send` takes all it is given. -/
theorem sendStaticFile_delivers_iff (conn : Int) (req : HttpRequest) (filepath : Bytes)
    (disk : Disk) (file : OpenFile) (w : Worker) (hopen : conn ∈ w.fds)
    (hfound : disk.fopen filepath = some file) (hfile : file.IsRegular) :
    DeliversWhole conn req filepath disk file.data w ↔
      ∃ dot, strrchr filepath 46 = some dot ∧
        TakesAll w.sends (fileHeader (fileResponse req filepath dot file) :: blocks file.data) := by
  cases hdot : strrchr filepath 46 with
  | none =>
    refine iff_of_false ?_ (by simp)
    rintro ⟨w', hok, -⟩
    simp only [sendStaticFile, hfound, hdot] at hok
    cases hok
  | some dot =>
    rw [deliversWhole_iff hopen hfound hfile hdot]
    simp

/-- A socket that takes everything, and a file of four bytes. -/
theorem sendStaticFile_delivers_iff_text :
    DeliversWhole 5 .zeroed (ascii "a.txt") ⟨fun _ => true, fun _ => some ⟨4, ascii "text"⟩⟩
      (ascii "text") { fds := {5} } :=
  (sendStaticFile_delivers_iff 5 .zeroed (ascii "a.txt")
    ⟨fun _ => true, fun _ => some ⟨4, ascii "text"⟩⟩ ⟨4, ascii "text"⟩ { fds := {5} } (by decide) rfl
    (by constructor <;> decide)).mpr ⟨1, by decide, takesAll_of_silent _⟩

/-- The second `send` fails: the content is missing and the connection stays open. -/
theorem failed_block_not_delivered :
    ¬ ∀ conn req filepath disk file w, conn ∈ Worker.fds w → Disk.fopen disk filepath = some file →
      file.IsRegular → DeliversWhole conn req filepath disk file.data w := by
  intro h
  let file : OpenFile := ⟨4, ascii "text"⟩
  let disk : Disk := ⟨fun _ => true, fun _ => some file⟩
  let w : Worker := { fds := {5}, sends := [some 512, none] }
  have hfile : file.IsRegular := by constructor <;> decide
  have hdelivers := h 5 .zeroed (ascii "a.txt") disk file w (by decide) rfl hfile
  have hdot : strrchr (ascii "a.txt") 46 = some 1 := by decide
  have htakes := (deliversWhole_iff (w := w) (by decide) rfl hfile hdot).mp hdelivers
  have hblocks : blocks file.data = [ascii "text"] := by decide +kernel
  rw [hblocks] at htakes
  exact htakes.2

end MinhServer
