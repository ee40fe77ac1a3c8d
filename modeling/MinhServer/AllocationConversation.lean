import MinhServer.Agreement
import MinhServer.AllocationRuns
import MinhServer.Conversation

namespace MinhServer.Allocating
open CString Wire Stream

/-- What the last call of `recvRequest` leaves when the stream ends so. -/
def endBlocks : Ending → Nat
  | .close => 1
  | .silent => 1
  | .reset => 0

/-- What a printed request leaves: the detector's copies of its method and path, the parser's copy
of the text, and what the answer leaves. -/
def requestBlocks (homeDir : Bytes) (disk : Disk) (text : RequestText) : Nat :=
  3 + answeredBlocks homeDir disk text.request

section Texts
variable {homeDir text text' : Bytes} {disk : Disk}

theorem roundBlocks_congr (h : cstr text = cstr text') :
    roundBlocks homeDir disk text = roundBlocks homeDir disk text' := by
  have hhttp : IsHttp text ↔ IsHttp text' := by rw [IsHttp, IsHttp, h]
  have hbehind : behindHead text = behindHead text' := by rw [behindHead, behindHead, h]
  have hhandled : handledBlocks homeDir disk text = handledBlocks homeDir disk text' := by
    unfold handledBlocks parsedBlocks
    rw [parseHttpRequest_congr h, hbehind]
  rw [roundBlocks, roundBlocks, h, hhandled]
  exact congrArg _ (if_congr hhttp rfl rfl)

end Texts

section Printed
variable {homeDir : Bytes} {disk : Disk} (text : RequestText)

theorem detectedBlocks_print (hhttp : IsHttp text.print) :
    detectedBlocks (MinhServer.detectProtocol text.print text.print.length) = 2 := by
  have hself : cstr text.print = text.print := cstr_eq_self text.notMem_print
  obtain ⟨hline, htake⟩ := text.strstr_print
  have hparse := text.parse_requestLine { type := .http } rfl rfl
  have htype : (MinhServer.detectProtocol text.print text.print.length).type = .http := by
    have h := hhttp
    rwa [IsHttp, hself] at h
  revert htype
  unfold MinhServer.detectProtocol
  rw [hself, hline]
  dsimp only
  rw [if_pos text.length_requestLine_lt, htake, hparse]
  dsimp only
  split_ifs
  · intro htype
    cases htype
  · intro htype
    cases htype
  · intro htype
    cases htype
  · intro htype
    rw [detectedBlocks, parseHttpHeaders_method]
    rfl
  · intro htype
    cases htype

theorem behindHead_print : behindHead text.print = [] := by
  have hself : cstr text.print = text.print := cstr_eq_self text.notMem_print
  have hls : ∀ l ∈ text.requestLine :: text.headers.map HeaderField.line, IsLine l :=
    fun l hl => .of_notMem (text.line_plain l hl).1 (text.line_plain l hl).2.1
  obtain ⟨e, he, hlen, -⟩ := headEnd_joinLines hls (List.cons_ne_nil _ _) []
  rw [List.append_nil, ← RequestText.print] at he
  rw [← RequestText.print] at hlen
  rw [behindHead, hself, he]
  dsimp only
  rw [hlen, List.drop_length]

theorem roundBlocks_print (hhttp : IsHttp text.print) :
    roundBlocks homeDir disk text.print = requestBlocks homeDir disk text := by
  have hself : cstr text.print = text.print := cstr_eq_self text.notMem_print
  have hcopy : parsedBlocks text.print 0 = 1 := if_pos (.inr (behindHead_print text))
  rw [roundBlocks_http homeDir disk hhttp, hself, detectedBlocks_print text hhttp, handledBlocks,
    text.parse_text]
  dsimp only
  rw [hcopy, if_neg (by decide), requestBlocks]
  omega

end Printed

section Session
variable {mode : Mode} {conn : Int} {homeDir : Bytes} {disk : Disk} {ending : Ending} {w : Worker}

theorem receives_blank {blank : List Bytes} (hblank : blank.flatten = []) (hopen : conn ∈ w.fds) :
    Receives mode conn homeDir disk ((⟨[], ending⟩ : Peer Byte).behind blank, w) []
      (endBlocks ending) := by
  generalize hpeer : (⟨[], ending⟩ : Peer Byte).behind blank = p
  rw [Peer.behind, List.append_nil] at hpeer
  have hbytes : p.bytes = [] := by rw [← hpeer, Peer.bytes_segments, hblank]
  have hpauseless : p.Pauseless := by
    rw [← hpeer]
    exact Peer.pauseless_segments blank ending
  have hending : p.ending = ending := by rw [← hpeer]
  have hreceive : MinhServer.receive mode conn p w = MinhServer.recvLoop mode {} p := if_pos hopen
  rcases Peer.recv_cases mode recvInv_init.remaining_pos.ne' p with
    ⟨b, bs, p', -, -, hmore, -⟩ | ⟨-, hrecv⟩ | ⟨-, hpause, -⟩
  · rw [hbytes] at hmore
    cases hmore
  · rw [recvLoop_eq, hrecv] at hreceive
    rw [hending] at hrecv hreceive
    cases ending with
    | close => exact .empty hreceive rfl
    | silent => exact .silent hreceive ⟨hopen, .again hrecv⟩
    | reset =>
      refine .failed hreceive fun hboth => ?_
      refine not_starves hrecv ?_ ?_ hboth.2
      · rintro ⟨⟩
      · rintro bytes s' ⟨⟩
  · exact absurd hpauseless hpause

/-- What a conversation leaves beside what its messages do. -/
def tailBlocks {α : Type*} (keeps : α → Bool) (ending : Ending) (messages : List α) : Nat :=
  if messages.all keeps then endBlocks ending else 0

/-- The texts that are received are the messages that are answered. -/
theorem receives_conversation (hdisk : disk.IsRegular) {messages : List (List Bytes)}
    (hmessages : ∀ segs ∈ messages, IsMessage homeDir disk segs.flatten) {blank : List Bytes}
    (hblank : blank.flatten = []) (hopen : conn ∈ w.fds) (htakes : w.Takes 4096) :
    ∃ texts, Receives mode conn homeDir disk ((conversation messages ending).behind blank, w) texts
        (tailBlocks (keepsOpen homeDir disk) ending (messages.map List.flatten)) ∧
      texts.map cstr = answered (keepsOpen homeDir disk) (messages.map List.flatten) := by
  induction messages generalizing blank w with
  | nil => exact ⟨[], receives_blank hblank hopen, rfl⟩
  | cons segs messages ih =>
    obtain ⟨hmessage, hrest⟩ := List.forall_mem_cons.mp hmessages
    obtain ⟨r, blank', hr, hblank', htext⟩ : ∃ r blank',
        MinhServer.receive mode conn ((conversation (segs :: messages) ending).behind blank) w =
          (some r, (conversation messages ending).behind blank') ∧ blank'.flatten = [] ∧
          cstr r.memory = segs.flatten :=
      receive_conversation hmessage messages hblank hopen
    have hhttp : IsHttp r.memory := by
      have h := hmessage.http
      rwa [IsHttp, cstr_eq_self hmessage.noNul, ← htext] at h
    have hrecv := (Delivers.refl htakes).recv conn
    have hopen' : conn ∈ (w.record (.recv conn)).fds := hopen
    obtain ⟨req, v, hhandle, hdelivers, hkeeps, hends⟩ :=
      answer_message hmessage htext hopen' hrecv.takes hdisk
    have hnext := (hrecv.trans hdelivers).setTimeout conn 5
    rw [List.map_cons, answered, tailBlocks, List.all_cons]
    cases hopens : keepsOpen homeDir disk segs.flatten with
    | true =>
      obtain ⟨hclose, hstill⟩ := hkeeps hopens
      have hstill' : conn ∈ (v.record (.setTimeout conn 5)).fds := hstill
      obtain ⟨texts, hreceives, htexts⟩ := ih hrest hblank' hstill' hnext.takes
      refine ⟨r.memory :: texts, .next hr (.http hr hhttp hhandle hclose) hreceives, ?_⟩
      rw [List.map_cons, htext, htexts]
      rfl
    | false =>
      refine ⟨[r.memory], ?_, congrArg (List.cons · []) htext⟩
      cases hclose : shouldCloseConnection req with
      | true => exact .closing (.intro hr hhttp) hhandle hclose
      | false =>
        have hgone : conn ∉ (v.record (.setTimeout conn 5)).fds := hends hopens
        exact .next hr (.http hr hhttp hhandle hclose)
          (.failed (receive_eq_none hgone) fun hboth => hgone hboth.1)

theorem mem_of_answered {α : Type*} {keeps : α → Bool} {l : List α} {a : α}
    (h : a ∈ answered keeps l) : a ∈ l := by
  induction l with
  | nil => cases h
  | cons b l ih =>
    rw [answered] at h
    split at h
    · rcases List.mem_cons.mp h with rfl | h
      · exact List.mem_cons_self
      · exact List.mem_cons_of_mem b (ih h)
    · exact List.mem_cons.mpr (.inl (List.mem_singleton.mp h))

/-- A client prints its requests and sends them one after the other, each cut as it likes. For ever
the process loses three blocks for each request that is answered, one more for a GET unless the
file vanishes between the test and the opening, and one at the end if no answer ended the session
and the client does not reset the connection. -/
theorem requests_heap {texts : List RequestText} {messages : List (List Bytes)}
    (hcut : messages.map List.flatten = texts.map RequestText.print)
    (htexts : ∀ text ∈ texts, text.IsSendable homeDir disk) (hopen : conn ∈ w.fds)
    (htakes : w.Takes 4096) (hdisk : disk.IsRegular) (hbody : w.res.body = none) (h : Heap) :
    let keeps := fun text : RequestText => keepsOpenFor homeDir disk 0 text.request
    ∃ s h', handleOneClientRequest mode conn homeDir disk (conversation messages ending) w h =
        .ok (s, h') ∧ h.live ⊆ h'.live ∧
      h'.live.card = h.live.card + (((answered keeps texts).map (requestBlocks homeDir disk)).sum +
        tailBlocks keeps ending texts) := by
  intro keeps
  have hmessages : ∀ segs ∈ messages, IsMessage homeDir disk segs.flatten := by
    intro segs hsegs
    have hmem : segs.flatten ∈ texts.map RequestText.print := hcut ▸ List.mem_map_of_mem hsegs
    obtain ⟨text, htext, hprint⟩ := List.mem_map.mp hmem
    rw [← hprint]
    exact (htexts text htext).isMessage
  have hstart := (Delivers.refl htakes).setTimeout conn 30
  have hopen' : conn ∈ (w.record (.setTimeout conn 30)).fds := hopen
  obtain ⟨received, hreceives, hreceived⟩ : ∃ received, Receives mode conn homeDir disk
      (conversation messages ending, w.record (.setTimeout conn 30)) received
        (tailBlocks (keepsOpen homeDir disk) ending (messages.map List.flatten)) ∧
      received.map cstr = answered (keepsOpen homeDir disk) (messages.map List.flatten) :=
    receives_conversation hdisk hmessages List.flatten_nil hopen' hstart.takes
  obtain ⟨s, hs, -⟩ := @handle_conversation mode conn homeDir disk ending w messages hmessages
    hopen htakes hdisk
  have hmirrors := @serveRequests_mirrors mode conn homeDir disk (conversation messages ending)
    (w.record (.setTimeout conn 30)) [] hbody h
  rw [MinhServer.handleOneClientRequest] at hs
  rw [hs] at hmirrors
  obtain ⟨⟨s', h'⟩, hrun, rfl, -, received', n, hreceives', hleft⟩ := hmirrors.exists_ok
  obtain ⟨rfl, rfl⟩ := hreceives.unique hreceives'
  have hkeeps : keepsOpen homeDir disk ∘ RequestText.print = keeps := funext keepsOpen_print
  have htail : tailBlocks (keepsOpen homeDir disk) ending (messages.map List.flatten) =
      tailBlocks keeps ending texts := by
    rw [hcut, tailBlocks, tailBlocks, List.all_map, hkeeps]
  have hanswers : answered (keepsOpen homeDir disk) (messages.map List.flatten) =
      (answered keeps texts).map RequestText.print := by
    rw [hcut, answered_map, ← hkeeps]
    rfl
  have hblocks : received'.map (roundBlocks homeDir disk) =
      (answered keeps texts).map (requestBlocks homeDir disk) := by
    calc received'.map (roundBlocks homeDir disk)
        = (received'.map cstr).map (roundBlocks homeDir disk) := by
          rw [List.map_map]
          refine List.map_congr_left fun text _ => roundBlocks_congr ?_
          exact (cstr_eq_self (zero_notMem_cstr text)).symm
      _ = ((answered keeps texts).map RequestText.print).map (roundBlocks homeDir disk) := by
          rw [hreceived, hanswers]
      _ = (answered keeps texts).map (requestBlocks homeDir disk) := by
          rw [List.map_map]
          refine List.map_congr_left fun text htext => roundBlocks_print text ?_
          exact (htexts text (mem_of_answered htext)).http
  refine ⟨s', h', hrun, hleft.kept, ?_⟩
  rw [← hblocks, ← htail]
  exact hleft.card

/-- A DELETE, then a GET that asks for the end of the session, and one that is not read any
more. -/
theorem requests_heap_two :
    let disk : Disk := ⟨fun _ => false, fun _ => none⟩
    let accept : HeaderField :=
      { name := ⟨ascii "Accept", by decide, by decide⟩
        nonempty := by decide
        oneLine := by decide
        value := ⟨⟨ascii "text/html", by decide, by decide⟩, by decide, by decide +kernel⟩ }
    let keep : HeaderField :=
      { name := ⟨ascii "connection", by decide, by decide⟩
        nonempty := by decide
        oneLine := by decide
        value := ⟨⟨ascii "Keep-Alive", by decide, by decide⟩, by decide, by decide +kernel⟩ }
    let delete : Token 16 :=
      ⟨⟨ascii "DELETE", by decide, by decide⟩, by decide, by decide +kernel⟩
    let get : Token 16 := ⟨⟨ascii "Get", by decide, by decide⟩, by decide, by decide +kernel⟩
    let path : Token 256 := ⟨⟨ascii "/a", by decide, by decide⟩, by decide, by decide +kernel⟩
    let http : Token 16 := ⟨⟨ascii "HTTP/1.0", by decide, by decide⟩, by decide, by decide +kernel⟩
    let texts : List RequestText := [⟨delete, path, http, [accept, keep], by decide⟩,
      ⟨get, path, http, [accept, accept], by decide⟩, ⟨get, path, http, [keep, keep], by decide⟩]
    let messages := texts.map fun text => [text.print.take 5, text.print.drop 5]
    ∃ s h', handleOneClientRequest .blocking 5 [] disk (conversation messages .close)
        { fds := {5} } .empty = .ok (s, h') ∧ h'.live.card = 7 := by
  intro disk accept keep delete get path http texts messages
  have hcut : messages.map List.flatten = texts.map RequestText.print := by decide +kernel
  have hfound : ∃ name, requestPath path.text = some name ∧
      (disk.readable ([] ++ name.bytes) → (disk.fopen ([] ++ name.bytes)).isSome →
        46 ∈ [] ++ name.bytes) := ⟨_, rfl, fun hreadable => absurd hreadable Bool.false_ne_true⟩
  have hsendable : ∀ text ∈ texts, text.IsSendable [] disk := by
    refine List.forall_mem_cons.mpr ⟨?_, List.forall_mem_cons.mpr ⟨?_, ?_⟩⟩
    · exact ⟨by decide +kernel, by decide +kernel, fun _ => hfound⟩
    · exact ⟨by decide +kernel, by decide +kernel, fun _ => hfound⟩
    · exact List.forall_mem_singleton.mpr ⟨by decide +kernel, by decide +kernel, fun _ => hfound⟩
  have hregular : disk.IsRegular := by
    rintro name file ⟨⟩
  have hrun : ∃ s h', handleOneClientRequest .blocking 5 [] disk (conversation messages .close)
      { fds := {5} } .empty = .ok (s, h') ∧ _ ∧ h'.live.card = _ :=
    requests_heap hcut hsendable (Finset.mem_singleton_self 5) (by simp [Worker.Takes]) hregular rfl
      .empty
  obtain ⟨s, h', hs, -, hcard⟩ := hrun
  exact ⟨s, h', hs, hcard.trans (by decide +kernel)⟩

end Session
end MinhServer.Allocating
