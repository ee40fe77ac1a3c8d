import MinhServer.Http.Head
import MinhServer.Rounds

namespace MinhServer
open CString Wire

/-- How many calls of `recv` return data in the loop of `recvRequest`. -/
def positiveRecvs (mode : Mode) (s : RecvState) (peer : Peer Byte) : Nat :=
  match _h : peer.recv mode s.grow.remaining with
  | (.data bytes, peer') =>
    match s.grow.onData bytes with
    | .more s' => positiveRecvs mode s' peer' + 1
    | _ => 1
  | _ => 0
termination_by peer.size
decreasing_by exact Peer.recv_size_lt _h

/-- The same for `recvRequest(conn)`. -/
def roundRecvs (mode : Mode) (conn : Int) (peer : Peer Byte) (w : Worker) : Nat :=
  if conn ∈ w.fds then positiveRecvs mode {} peer else 0

section Receive
variable {mode : Mode} {conn : Int} {p p' : Peer Byte} {w : Worker} {r : RecvBuffer}

theorem positiveRecvs_pos {s : RecvState} {bytes : Bytes}
    (h : p.recv mode s.grow.remaining = (.data bytes, p')) : 0 < positiveRecvs mode s p := by
  rw [positiveRecvs]
  split
  · split <;> omega
  · next hnone => exact absurd h (hnone bytes p')

theorem roundRecvs_pos (h : receive mode conn p w = (some r, p')) (hr : cstr r.memory ≠ []) :
    0 < roundRecvs mode conn p w := by
  have hopen : conn ∈ w.fds := open_of_receive h
  rw [receive, if_pos hopen, recvRequest, recvLoop_eq] at h
  rw [roundRecvs, if_pos hopen]
  cases hrecv : p.recv mode (({} : RecvState).grow.remaining) with
  | mk result q =>
    rw [hrecv] at h
    cases result with
    | data bytes => exact positiveRecvs_pos hrecv
    | eof =>
      cases h
      exact absurd rfl hr
    | again | error => cases h

theorem recvLoop_ending (mode : Mode) (s : RecvState) (p : Peer Byte) :
    (recvLoop mode s p).2.ending = p.ending := by
  induction hsize : p.size using Nat.strong_induction_on generalizing s p with
  | _ size ih =>
  have hkept := Peer.recv_ending mode s.grow.remaining p
  rw [recvLoop_eq]
  cases hr : p.recv mode s.grow.remaining with
  | mk result p' =>
    rw [hr] at hkept
    cases result with
    | data bytes =>
      dsimp only
      cases s.grow.onData bytes with
      | complete s' => exact hkept
      | tooLarge => exact hkept
      | more s' => exact (ih _ (hsize ▸ Peer.recv_size_lt hr) s' p' rfl).trans hkept
    | eof | again | error => exact hkept

theorem receive_ending (h : receive mode conn p w = (some r, p')) : p'.ending = p.ending := by
  have hloop := recvLoop_ending mode {} p
  rw [receive, if_pos (open_of_receive h), recvRequest] at h
  rw [h] at hloop
  exact hloop

end Receive

section Rounds
variable (mode : Mode) (conn : Int) (homeDir : Bytes) (disk : Disk) (endings : Nat → Ending)

/-- A round in which the client's request ends the connection. -/
inductive ClosingRound : Peer Byte × Worker → Worker → Prop where
  | intro {p w r p' req w'} (recv : receive mode conn p w = (some r, p')) (type : IsHttp r.memory)
      (handle : handleHttpRequest conn .zeroed r.memory homeDir disk (w.record (.recv conn)) =
        .ok (req, w'))
      (close : shouldCloseConnection req = true) : ClosingRound (p, w) w'

/-- The loop ends with the worker `w'`, from round `k` on; `counts` has the positive results of
`recv` in each round. In round `k` the stream ends as `endings k` says. -/
inductive Serves : Nat → Peer Byte × Worker → List Nat → Worker → Prop where
  | last {k p w p'} (round : LastRound mode conn (p.withEnding (endings k)) w p') :
      Serves k (p, w) [roundRecvs mode conn (p.withEnding (endings k)) w]
        ((w.record (.recv conn)).close conn)
  | closing {k p w w'}
      (round : ClosingRound mode conn homeDir disk (p.withEnding (endings k), w) w') :
      Serves k (p, w) [roundRecvs mode conn (p.withEnding (endings k)) w] (w'.close conn)
  | next {k p w y counts w'}
      (round : NextRound mode conn homeDir disk (p.withEnding (endings k), w) y)
      (rest : Serves (k + 1) y counts w') :
      Serves k (p, w) (roundRecvs mode conn (p.withEnding (endings k)) w :: counts) w'

/-- From round `k` on the loop comes to the HTTP request `text`. -/
inductive Meets : Nat → Peer Byte × Worker → Bytes → Prop where
  | here {k p w text v} (handles : Handles mode conn (p.withEnding (endings k), w) text v) :
      Meets k (p, w) text
  | later {k p w y text}
      (round : NextRound mode conn homeDir disk (p.withEnding (endings k), w) y)
      (rest : Meets (k + 1) y text) : Meets k (p, w) text

end Rounds

section Loop
variable {mode : Mode} {conn : Int} {homeDir text : Bytes} {disk : Disk} {endings : Nat → Ending}
  {k : Nat} {p : Peer Byte} {w w' : Worker} {x y : Peer Byte × Worker} {counts : List Nat}

theorem NextRound.recvs_pos (h : NextRound mode conn homeDir disk (p, w) y) :
    0 < roundRecvs mode conn p w := by
  cases h with
  | http recv type => exact roundRecvs_pos recv type.ne_nil
  | other recv text => exact roundRecvs_pos recv text

theorem Serves.bound (h : Serves mode conn homeDir disk endings k x counts w') :
    counts.length ≤ counts.sum + 1 := by
  induction h with
  | last => simp
  | closing => simp
  | next round _ ih =>
    have hpos := round.recvs_pos
    rw [List.length_cons, List.sum_cons]
    omega

theorem Serves.closed (h : Serves mode conn homeDir disk endings k x counts w') :
    conn ∉ w'.fds := by
  induction h with
  | last => exact Finset.notMem_erase _ _
  | closing => exact Finset.notMem_erase _ _
  | next _ _ ih => exact ih

theorem NextRound.ending (h : NextRound mode conn homeDir disk (p, w) y) :
    y.1.ending = p.ending := by
  cases h with
  | http recv => exact receive_ending recv
  | other recv => exact receive_ending recv

/-- When the stream ends in one way only, this is the request loop. -/
theorem Serves.serveRequests (h : Serves mode conn homeDir disk endings k x counts w')
    (hsame : ∀ k, endings k = x.1.ending) (served : List HttpRequest) :
    ∃ s, MinhServer.serveRequests mode conn homeDir disk x.1 x.2 served = .ok s ∧ s.worker = w' := by
  induction h generalizing served with
  | last round =>
    rw [Peer.withEnding_eq_self (hsame _)] at round
    exact ⟨_, serveRequests_last round, rfl⟩
  | @closing k p w v round =>
    rw [Peer.withEnding_eq_self (hsame _)] at round
    cases round with
    | @intro _ _ r p' req _ recv type handle close =>
      refine ⟨⟨p', v.close conn, served ++ [req]⟩, ?_, rfl⟩
      dsimp only
      rw [serveRequests_http recv type.ne_nil type, handle]
      simp only [Bind.bind, Except.bind, close, if_true]
  | next round _ ih =>
    rw [Peer.withEnding_eq_self (hsame _)] at round
    -- the stream that is left ends in the same way
    have hrest := ih fun k => (hsame k).trans round.ending.symm
    cases round with
    | @http p w r p' req v recv type handle keep =>
      obtain ⟨s, hs, hw⟩ := hrest (served ++ [req])
      refine ⟨s, ?_, hw⟩
      dsimp only
      rw [serveRequests_http recv type.ne_nil type, handle]
      simp only [Bind.bind, Except.bind, keep, Bool.false_eq_true, if_false]
      exact hs
    | other recv text type =>
      obtain ⟨s, hs, hw⟩ := hrest served
      exact ⟨s, (serveRequests_other recv text type).trans hs, hw⟩

end Loop

/-- The handler takes no undefined step: the lines of the head fit, and a GET has a path with a
slash and, if it opens a file, a file name with a dot. -/
structure Answerable (homeDir : Bytes) (disk : Disk) (text : Bytes) : Prop where
  fits : HeadFits (headLines (cstr text))
  found : ∀ code req, parseHttpRequest text .zeroed = .ok (code, req) → 0 ≤ code →
    route req = .get → ∃ path, requestPath req.path = some path ∧
      (disk.readable (homeDir ++ path.bytes) → (disk.fopen (homeDir ++ path.bytes)).isSome →
        46 ∈ homeDir ++ path.bytes)

section Answers
variable {conn : Int} {homeDir filepath text : Bytes} {disk : Disk} {req : HttpRequest} {w : Worker}

theorem sendStaticFile_isOk_iff : (∃ w', sendStaticFile conn req filepath disk w = .ok w') ↔
    ((disk.fopen filepath).isSome → 46 ∈ filepath) := by
  cases hfile : disk.fopen filepath with
  | none =>
    rw [sendStaticFile, hfile]
    exact iff_of_true ⟨_, rfl⟩ (by simp)
  | some file =>
    cases hdot : strrchr filepath 46 with
    | none =>
      rw [sendStaticFile, hfile]
      simp only [hdot]
      simp [strrchr_eq_none_iff.mp hdot]
    | some dot =>
      rw [sendStaticFile_found hfile hdot]
      dsimp only
      refine iff_of_true ?_ fun _ => suffix_mem hdot
      split
      · exact ⟨_, rfl⟩
      · exact ⟨_, rfl⟩

theorem handleGetRequest_isOk_iff :
    (∃ result, handleGetRequest conn req homeDir disk w = .ok result) ↔
      ∃ path, requestPath req.path = some path ∧
        (disk.readable (homeDir ++ path.bytes) → (disk.fopen (homeDir ++ path.bytes)).isSome →
          46 ∈ homeDir ++ path.bytes) := by
  cases hpath : requestPath req.path with
  | none =>
    rw [handleGetRequest, hpath]
    simp
  | some path =>
    simp only [Option.some.injEq, exists_eq_left']
    rw [handleGetRequest_path hpath]
    by_cases hreadable : disk.readable (homeDir ++ path.bytes) = true
    · have hfile : (∃ w', sendStaticFile conn { req with path := path }
          (homeDir ++ path.bytes) disk w = .ok w') ↔ _ := sendStaticFile_isOk_iff
      rw [if_pos hreadable, imp_iff_right hreadable, ← hfile]
      constructor
      · rintro ⟨result, h⟩
        obtain ⟨w', hw', -⟩ := map_eq_ok.mp h
        exact ⟨w', hw'⟩
      · rintro ⟨w', hw'⟩
        exact ⟨_, map_eq_ok.mpr ⟨w', hw', rfl⟩⟩
    · rw [if_neg hreadable]
      exact iff_of_true ⟨_, rfl⟩ fun h => absurd h hreadable

theorem answer_isOk_iff : (∃ result, answer conn req homeDir disk w = .ok result) ↔
    (route req = .get → ∃ result, handleGetRequest conn req homeDir disk w = .ok result) := by
  unfold answer
  split
  · next hroute => simp [hroute]
  all_goals next hroute => simp [hroute]

theorem handleHttpRequest_isOk_iff :
    (∃ result, handleHttpRequest conn .zeroed text homeDir disk w = .ok result) ↔
      Answerable homeDir disk text := by
  unfold handleHttpRequest
  constructor
  · rintro ⟨result, h⟩
    obtain ⟨⟨code, req⟩, hparse, h⟩ := bind_eq_ok.mp h
    refine ⟨headFits_of_parsed hparse, fun code' req' hparse' hcode hroute => ?_⟩
    rw [hparse] at hparse'
    cases hparse'
    dsimp only at h
    rw [if_neg (not_lt.mpr hcode)] at h
    obtain ⟨result', hanswer, -⟩ := bind_eq_ok.mp h
    exact handleGetRequest_isOk_iff.mp (answer_isOk_iff.mp ⟨result', hanswer⟩ hroute)
  · rintro ⟨hfits, hfound⟩
    obtain ⟨⟨code, req⟩, hparse⟩ := exists_parsed hfits
    rw [hparse]
    simp only [Bind.bind, Except.bind]
    by_cases hcode : code < 0
    · rw [if_pos hcode]
      exact ⟨_, rfl⟩
    · rw [if_neg hcode]
      have hget : route req = .get →
          ∃ result, handleGetRequest conn req homeDir disk w = .ok result := fun hroute =>
        handleGetRequest_isOk_iff.mpr (hfound code req hparse (not_lt.mp hcode) hroute)
      obtain ⟨result, hanswer⟩ := answer_isOk_iff.mpr hget
      rw [hanswer]
      exact ⟨_, rfl⟩

end Answers

section Serving
variable {mode : Mode} {conn : Int} {homeDir text : Bytes} {disk : Disk} {endings : Nat → Ending}
  {k : Nat} {p : Peer Byte} {w w' : Worker} {x : Peer Byte × Worker} {counts : List Nat}

/-- The requests of a loop that ended were answered. -/
theorem Serves.answerable (h : Serves mode conn homeDir disk endings k x counts w')
    (hmeets : Meets mode conn homeDir disk endings k x text) : Answerable homeDir disk text := by
  induction h with
  | last round =>
    cases hmeets with
    | here handles =>
      have hcomes : ComesTo mode conn homeDir disk _ text _ := comesTo_of_handles handles
      exact absurd hcomes (not_comesTo_of_last round)
    | later next => exact absurd round (next.not_last _)
  | closing round =>
    cases round with
    | intro recv type handle close =>
      cases hmeets with
      | here handles =>
        obtain ⟨rfl, -⟩ := handles.text_eq recv
        exact handleHttpRequest_isOk_iff.mp ⟨_, handle⟩
      | later next =>
        obtain ⟨req, v, hhandle, hkeep, -⟩ := next.of_http recv type
        rw [handle] at hhandle
        cases hhandle
        rw [close] at hkeep
        cases hkeep
  | next round _ ih =>
    cases hmeets with
    | here handles =>
      cases round with
      | http recv type handle =>
        obtain ⟨rfl, -⟩ := handles.text_eq recv
        exact handleHttpRequest_isOk_iff.mp ⟨_, handle⟩
      | other recv nonempty type =>
        obtain ⟨rfl, -⟩ := handles.text_eq recv
        exact absurd handles.isHttp type
    | later next rest => exact ih (round.unique next ▸ rest)

/-- A round ends the loop, or leaves less of the stream. -/
theorem exists_serves (p : Peer Byte) (w : Worker) (k : Nat)
    (h : ∀ text, Meets mode conn homeDir disk endings k (p, w) text →
      Answerable homeDir disk text) :
    ∃ counts w', Serves mode conn homeDir disk endings k (p, w) counts w' := by
  induction hsize : p.size using Nat.strong_induction_on generalizing k p w with
  | _ size ih =>
  have hnext : ∀ y, NextRound mode conn homeDir disk (p.withEnding (endings k), w) y →
      y.1.size < size → ∃ counts w', Serves mode conn homeDir disk endings k (p, w) counts w' := by
    intro y hround hless
    obtain ⟨counts, w', hserves⟩ := ih y.1.size hless y.1 y.2 (k + 1)
      (fun text hmeets => h text (.later hround hmeets)) rfl
    exact ⟨_, w', .next hround hserves⟩
  cases hr : receive mode conn (p.withEnding (endings k)) w with
  | mk buffer p' =>
    cases buffer with
    | none => exact ⟨_, _, .last (.inl hr)⟩
    | some r =>
      by_cases ht : cstr r.memory = []
      · exact ⟨_, _, .last (.inr ⟨r, hr, ht⟩)⟩
      have hless := receive_size_lt hr ht
      change p'.size < p.size at hless
      rw [hsize] at hless
      by_cases htype : IsHttp r.memory
      · obtain ⟨⟨req, v⟩, hhandle⟩ :=
          handleHttpRequest_isOk_iff.mpr (h r.memory (.here (.intro hr htype)))
        cases hclose : shouldCloseConnection req with
        | true => exact ⟨_, _, .closing (.intro hr htype hhandle hclose)⟩
        | false => exact hnext _ (.http hr htype hhandle hclose) hless
      · exact hnext _ (.other hr ht htype) hless

end Serving

/-- The loop ends, after at most one round more than `recv` has positive results, and with the
connection closed. With one ending of the stream it is the loop of `handleOneClientRequest`. -/
def ServingEnds (mode : Mode) (conn : Int) (homeDir : Bytes) (disk : Disk)
    (endings : Nat → Ending) (peer : Peer Byte) (w : Worker) : Prop :=
  ∃ counts w',
    Serves mode conn homeDir disk endings 0 (peer, w.record (.setTimeout conn 30)) counts w' ∧
      counts.length ≤ counts.sum + 1 ∧ conn ∉ w'.fds ∧
      ((∀ k, endings k = peer.ending) →
        ∃ s, handleOneClientRequest mode conn homeDir disk peer w = .ok s ∧ s.worker = w')

/-- Serving a connection ends if and only if each HTTP request that the loop comes to can be
answered: no other text stops it, and no way in which the stream ends. -/
theorem serving_ends_iff (mode : Mode) (conn : Int) (homeDir : Bytes) (disk : Disk)
    (endings : Nat → Ending) (peer : Peer Byte) (w : Worker) :
    ServingEnds mode conn homeDir disk endings peer w ↔
      ∀ text, Meets mode conn homeDir disk endings 0 (peer, w.record (.setTimeout conn 30)) text →
        Answerable homeDir disk text := by
  constructor
  · rintro ⟨counts, w', hserves, -⟩ text hmeets
    exact hserves.answerable hmeets
  · intro h
    obtain ⟨counts, w', hserves⟩ := exists_serves peer _ 0 h
    exact ⟨counts, w', hserves, hserves.bound, hserves.closed,
      fun hsame => hserves.serveRequests hsame []⟩

/-- A GET for a path without a slash is not survived. -/
theorem no_slash_not_served : ¬ ∀ mode conn homeDir disk endings peer w,
    ServingEnds mode conn homeDir disk endings peer w := by
  intro h
  let peer : Peer Byte := .ofSegments [ascii "GET a HTTP/1.1\r\n\r\n"]
  let disk : Disk := ⟨fun _ => false, fun _ => none⟩
  have hrun : (handleOneClientRequest .blocking 5 (ascii "./www") disk peer
      { fds := {5} }).toOption.isSome = false := by
    decide +kernel
  obtain ⟨counts, w', -, -, -, hsame⟩ :=
    h .blocking 5 (ascii "./www") disk (fun _ => .close) peer { fds := {5} }
  obtain ⟨s, hs, -⟩ := hsame fun _ => rfl
  rw [hs] at hrun
  cases hrun

end MinhServer
