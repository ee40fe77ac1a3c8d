import Mathlib.Logic.Relation
import MinhServer.Http.Connection
import MinhServer.Server

namespace MinhServer
open CString Wire

/-- The loop hands the text to `handleHttpRequest`. -/
def IsHttp (text : Bytes) : Prop := (detectProtocol (cstr text) (cstr text).length).type = .http

instance (text : Bytes) : Decidable (IsHttp text) :=
  inferInstanceAs (Decidable ((detectProtocol (cstr text) (cstr text).length).type = .http))

theorem IsHttp.ne_nil {text : Bytes} (h : IsHttp text) : cstr text ≠ [] := by
  intro hnil
  rw [IsHttp, hnil] at h
  cases h

section Rounds
variable (mode : Mode) (conn : Int) (homeDir : Bytes) (disk : Disk)

/-- One round of the loop that leads to another. -/
inductive NextRound : Peer Byte × Worker → Peer Byte × Worker → Prop where
  | http {p w r p' req w'} (recv : receive mode conn p w = (some r, p')) (type : IsHttp r.memory)
      (handle : handleHttpRequest conn .zeroed r.memory homeDir disk (w.record (.recv conn)) =
        .ok (req, w'))
      (keep : shouldCloseConnection req = false) :
      NextRound (p, w) (p', w'.record (.setTimeout conn 5))
  | other {p w r p'} (recv : receive mode conn p w = (some r, p')) (text : cstr r.memory ≠ [])
      (type : ¬ IsHttp r.memory) :
      NextRound (p, w) (p', (w.record (.recv conn)).record (.setTimeout conn 5))

/-- In this round the loop handles the HTTP request `text`, with the worker `w`. -/
inductive Handles : Peer Byte × Worker → Bytes → Worker → Prop where
  | intro {p v r p'} (recv : receive mode conn p v = (some r, p')) (type : IsHttp r.memory) :
      Handles (p, v) r.memory (v.record (.recv conn))

/-- From `start` the loop comes to handle `text`. -/
def ComesTo (start : Peer Byte × Worker) (text : Bytes) (w : Worker) : Prop :=
  ∃ x, Relation.ReflTransGen (NextRound mode conn homeDir disk) start x ∧
    Handles mode conn x text w

end Rounds

section Loop
variable {mode : Mode} {conn : Int} {homeDir text : Bytes} {disk : Disk} {p p' : Peer Byte}
  {w w' : Worker} {x y : Peer Byte × Worker} {r : RecvBuffer}

theorem receive_eq_none (h : conn ∉ w.fds) : receive mode conn p w = (none, p) := if_neg h

/-- Only from an open connection a request is received. -/
theorem open_of_receive (h : receive mode conn p w = (some r, p')) : conn ∈ w.fds := by
  by_contra hclosed
  rw [receive_eq_none hclosed] at h
  cases h

theorem Handles.opened (h : Handles mode conn x text w) : conn ∈ w.fds := by
  cases h with
  | intro recv => exact open_of_receive recv

theorem Handles.isHttp (h : Handles mode conn x text w) : IsHttp text := by
  cases h with
  | intro recv type => exact type

theorem handles_of_receive (h : (receive mode conn p w).1.map RecvBuffer.memory = some text)
    (htype : IsHttp text) : Handles mode conn (p, w) text (w.record (.recv conn)) := by
  cases hr : receive mode conn p w with
  | mk buffer p' =>
    rw [hr] at h
    obtain ⟨r, rfl, rfl⟩ := Option.map_eq_some_iff.mp h
    exact .intro hr htype

theorem Handles.text_eq (h : Handles mode conn (p, w') text w)
    (hr : receive mode conn p w' = (some r, p')) : text = r.memory ∧ w = w'.record (.recv conn) := by
  cases h with
  | intro recv =>
    rw [hr] at recv
    cases recv
    exact ⟨rfl, rfl⟩

theorem comesTo_of_handles (h : Handles mode conn x text w) :
    ComesTo mode conn homeDir disk x text w := ⟨x, .refl, h⟩

theorem comesTo_of_next (h : NextRound mode conn homeDir disk x y)
    (hy : ComesTo mode conn homeDir disk y text w) : ComesTo mode conn homeDir disk x text w := by
  obtain ⟨z, hz, hhandles⟩ := hy
  exact ⟨z, .head h hz, hhandles⟩

theorem comesTo_cases (h : ComesTo mode conn homeDir disk x text w) :
    Handles mode conn x text w ∨
      ∃ y, NextRound mode conn homeDir disk x y ∧ ComesTo mode conn homeDir disk y text w := by
  obtain ⟨z, hz, hhandles⟩ := h
  rcases Relation.ReflTransGen.cases_head hz with rfl | ⟨y, hxy, hyz⟩
  · exact .inl hhandles
  · exact .inr ⟨y, hxy, z, hyz, hhandles⟩

/-- A round over an HTTP request handles it and keeps the connection. -/
theorem NextRound.of_http (h : NextRound mode conn homeDir disk (p, w) y)
    (hr : receive mode conn p w = (some r, p')) (htype : IsHttp r.memory) :
    ∃ req v, handleHttpRequest conn .zeroed r.memory homeDir disk (w.record (.recv conn)) =
      .ok (req, v) ∧ shouldCloseConnection req = false ∧ y = (p', v.record (.setTimeout conn 5)) := by
  cases h with
  | http recv type handle keep =>
    rw [hr] at recv
    cases recv
    exact ⟨_, _, handle, keep, rfl⟩
  | other recv text type =>
    rw [hr] at recv
    cases recv
    exact absurd htype type

theorem NextRound.of_other (h : NextRound mode conn homeDir disk (p, w) y)
    (hr : receive mode conn p w = (some r, p')) (htype : ¬ IsHttp r.memory) :
    y = (p', (w.record (.recv conn)).record (.setTimeout conn 5)) := by
  cases h with
  | http recv type =>
    rw [hr] at recv
    cases recv
    exact absurd type htype
  | other recv text type =>
    rw [hr] at recv
    cases recv
    rfl

/-- A round has one outcome. -/
theorem NextRound.unique {z : Peer Byte × Worker} (hy : NextRound mode conn homeDir disk x y)
    (hz : NextRound mode conn homeDir disk x z) : y = z := by
  cases hy with
  | http recv type handle keep =>
    obtain ⟨req, v, hhandle, -, rfl⟩ := hz.of_http recv type
    rw [handle] at hhandle
    cases hhandle
    rfl
  | other recv text type => exact (hz.of_other recv type).symm

theorem LastRound.blank {q : Peer Byte} (h : LastRound mode conn p w q)
    (hr : receive mode conn p w = (some r, p')) : cstr r.memory = [] := by
  rcases h with hnone | ⟨r', hlast, ht⟩
  · rw [hnone] at hr
    cases hr
  · rw [hlast] at hr
    cases hr
    exact ht

theorem NextRound.not_last (h : NextRound mode conn homeDir disk (p, w) y) (q : Peer Byte) :
    ¬ LastRound mode conn p w q := by
  intro hlast
  cases h with
  | http recv type => exact type.ne_nil (hlast.blank recv)
  | other recv text => exact text (hlast.blank recv)

theorem not_comesTo_of_last (h : LastRound mode conn p w p') :
    ¬ ComesTo mode conn homeDir disk (p, w) text w' := by
  intro hcomes
  rcases comesTo_cases hcomes with hhandles | ⟨y, hnext, -⟩
  · cases hhandles with
    | intro recv type => exact type.ne_nil (h.blank recv)
  · exact hnext.not_last p' h

variable {served : List HttpRequest} {req : HttpRequest} {v : Worker} {s : Session}

theorem NextRound.loop_eq (h : NextRound mode conn homeDir disk x y) (served : List HttpRequest) :
    ∃ more, serveRequests mode conn homeDir disk x.1 x.2 served =
      serveRequests mode conn homeDir disk y.1 y.2 (served ++ more) := by
  cases h with
  | @http p w r p' req w' recv type handle keep =>
    refine ⟨[req], ?_⟩
    rw [serveRequests_http recv type.ne_nil type, handle]
    simp only [Bind.bind, Except.bind, keep, Bool.false_eq_true, if_false]
  | other recv text type =>
    refine ⟨[], ?_⟩
    rw [serveRequests_other recv text type, List.append_nil]

theorem Handles.loop_eq (h : Handles mode conn x text w) (homeDir : Bytes) (disk : Disk)
    (served : List HttpRequest) :
    ∃ p', serveRequests mode conn homeDir disk x.1 x.2 served =
      handleHttpRequest conn .zeroed text homeDir disk w >>= fun result =>
        if shouldCloseConnection result.1 then
          .ok ⟨p', result.2.close conn, served ++ [result.1]⟩
        else serveRequests mode conn homeDir disk p' (result.2.record (.setTimeout conn 5))
          (served ++ [result.1]) := by
  cases h with
  | @intro p v r p' recv type => exact ⟨p', serveRequests_http recv type.ne_nil type⟩

theorem ComesTo.loop_eq (h : ComesTo mode conn homeDir disk x text w) (served : List HttpRequest) :
    ∃ p' more, serveRequests mode conn homeDir disk x.1 x.2 served =
      handleHttpRequest conn .zeroed text homeDir disk w >>= fun result =>
        if shouldCloseConnection result.1 then
          .ok ⟨p', result.2.close conn, served ++ more ++ [result.1]⟩
        else serveRequests mode conn homeDir disk p' (result.2.record (.setTimeout conn 5))
          (served ++ more ++ [result.1]) := by
  obtain ⟨z, hz, hhandles⟩ := h
  induction hz using Relation.ReflTransGen.head_induction_on generalizing served with
  | refl =>
    obtain ⟨p', hloop⟩ := hhandles.loop_eq homeDir disk served
    exact ⟨p', [], by rw [hloop, List.append_nil]⟩
  | head hnext _ ih =>
    obtain ⟨first, hfirst⟩ := hnext.loop_eq served
    obtain ⟨p', more, hloop⟩ := ih (served ++ first)
    exact ⟨p', first ++ more, by rw [hfirst, hloop, List.append_assoc served]⟩

/-- Each request that is served was handled in a round that the loop comes to. -/
theorem comesTo_of_served (h : serveRequests mode conn homeDir disk p w served = .ok s) :
    ∃ new, s.served = served ++ new ∧ ∀ req ∈ new, ∃ text v v',
      ComesTo mode conn homeDir disk (p, w) text v ∧
        handleHttpRequest conn .zeroed text homeDir disk v = .ok (req, v') := by
  induction p, w using loop_induction mode conn generalizing served with
  | last p w p' hlast =>
    rw [serveRequests_last hlast, Except.ok.injEq] at h
    rw [← h]
    exact ⟨[], (List.append_nil _).symm, fun req hreq => absurd hreq List.not_mem_nil⟩
  | http p w r p' hr ht htype ih =>
    rw [serveRequests_http hr ht htype] at h
    obtain ⟨⟨req, w'⟩, hhandle, h⟩ := bind_eq_ok.mp h
    have hcomes : ComesTo mode conn homeDir disk (p, w) r.memory (w.record (.recv conn)) :=
      comesTo_of_handles (.intro hr htype)
    dsimp only at h
    split at h
    · rw [Except.ok.injEq] at h
      rw [← h]
      refine ⟨[req], rfl, fun req' hreq' => ?_⟩
      obtain rfl := List.mem_singleton.mp hreq'
      exact ⟨_, _, w', hcomes, hhandle⟩
    · next hkeep =>
      have hnext : NextRound mode conn homeDir disk (p, w) _ :=
        .http hr htype hhandle (Bool.eq_false_of_not_eq_true hkeep)
      obtain ⟨new, hserved, hnew⟩ := ih _ h
      refine ⟨req :: new, by rw [hserved, List.append_assoc]; rfl, fun req' hreq' => ?_⟩
      rcases List.mem_cons.mp hreq' with rfl | hreq'
      · exact ⟨_, _, w', hcomes, hhandle⟩
      · obtain ⟨text, v, v', hlater, hok⟩ := hnew req' hreq'
        exact ⟨text, v, v', comesTo_of_next hnext hlater, hok⟩
  | other p w r p' hr ht htype ih =>
    rw [serveRequests_other hr ht htype] at h
    obtain ⟨new, hserved, hnew⟩ := ih _ h
    refine ⟨new, hserved, fun req' hreq' => ?_⟩
    obtain ⟨text, v, v', hlater, hok⟩ := hnew req' hreq'
    exact ⟨text, v, v', comesTo_of_next (.other hr ht htype) hlater, hok⟩

end Loop

end MinhServer
