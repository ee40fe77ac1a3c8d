import Mathlib.Data.List.Basic
import Mathlib.Tactic.Common

/-!
# A byte stream read through `recv`

A peer's side of a connection is a list of arrivals and the way the stream ends.
`recv` offers `n` places and takes bytes of the first pending arrival only, so
every sequence of `recv` results no longer than the space offered is the run of
some list of arrivals.
-/

namespace Wire

variable {α : Type*}

inductive Mode where
  | blocking
  | nonblocking
  deriving DecidableEq, Repr

/-- Bytes that arrive together, or a while in which nothing arrives. -/
inductive Arrival (α : Type*) where
  | data (bytes : List α)
  | pause
  deriving DecidableEq, Repr

/-- The peer closes, stays silent past every timeout, or the connection fails. -/
inductive Ending where
  | close
  | silent
  | reset
  deriving DecidableEq, Repr

structure Peer (α : Type*) where
  arrivals : List (Arrival α)
  ending : Ending
  deriving DecidableEq, Repr

inductive RecvResult (α : Type*) where
  | data (bytes : List α)
  | eof
  | again
  | error
  deriving DecidableEq, Repr

def Ending.result : Ending → RecvResult α
  | .close => .eof
  | .silent => .again
  | .reset => .error

/-- `recv` over the pending arrivals: a pause only delays a blocking call. -/
def recvArrivals (mode : Mode) (n : Nat) (ending : Ending) :
    List (Arrival α) → RecvResult α × List (Arrival α)
  | [] => (ending.result, [])
  | .pause :: as =>
    match mode with
    | .blocking => recvArrivals mode n ending as
    | .nonblocking => (.again, as)
  | .data [] :: as => recvArrivals mode n ending as
  | .data (b :: bs) :: as => (.data ((b :: bs).take n), .data ((b :: bs).drop n) :: as)

namespace Peer

/-- `recv(fd, buf, n, 0)`; a call that offers no space returns 0. -/
def recv (mode : Mode) (n : Nat) (p : Peer α) : RecvResult α × Peer α :=
  if n = 0 then (.eof, p)
  else
    let (r, as) := recvArrivals mode n p.ending p.arrivals
    (r, { p with arrivals := as })

def withEnding (p : Peer α) (ending : Ending) : Peer α := { p with ending := ending }

theorem withEnding_eq_self {p : Peer α} {ending : Ending} (h : ending = p.ending) :
    p.withEnding ending = p := by
  rw [h]
  rfl

/-- A peer that sends the segments one by one and closes. -/
def ofSegments (segs : List (List α)) : Peer α := ⟨segs.map .data, .close⟩

def bytes (p : Peer α) : List α :=
  p.arrivals.flatMap fun | .data bs => bs | .pause => []

/-- Bounds the number of `recv` calls that return data. -/
def size (p : Peer α) : Nat := p.bytes.length

def Pauseless (p : Peer α) : Prop := Arrival.pause ∉ p.arrivals

theorem bytes_segments (segs : List (List α)) (ending : Ending) :
    (⟨segs.map .data, ending⟩ : Peer α).bytes = segs.flatten := by
  simp [bytes, List.flatMap_map, List.flatMap_id']

theorem pauseless_segments (segs : List (List α)) (ending : Ending) :
    (⟨segs.map .data, ending⟩ : Peer α).Pauseless := by
  simp [Pauseless]

@[simp] theorem bytes_ofSegments (segs : List (List α)) :
    (ofSegments segs).bytes = segs.flatten := bytes_segments segs .close

theorem pauseless_ofSegments (segs : List (List α)) : (ofSegments segs).Pauseless :=
  pauseless_segments segs .close

end Peer

/-- What one `recv` over the arrivals can do. -/
theorem recvArrivals_cases (mode : Mode) {n : Nat} (hn : n ≠ 0) (ending : Ending)
    (as : List (Arrival α)) :
    (∃ b bs as', recvArrivals mode n ending as = (.data (b :: bs), as') ∧
      (b :: bs).length ≤ n ∧
      (⟨as, ending⟩ : Peer α).bytes = b :: bs ++ (⟨as', ending⟩ : Peer α).bytes ∧
      (Arrival.pause ∉ as → Arrival.pause ∉ as')) ∨
    ((⟨as, ending⟩ : Peer α).bytes = [] ∧
      recvArrivals mode n ending as = (ending.result, [])) ∨
    (mode = .nonblocking ∧ Arrival.pause ∈ as ∧
      ∃ as', recvArrivals mode n ending as = (.again, as') ∧
        (⟨as', ending⟩ : Peer α).bytes = (⟨as, ending⟩ : Peer α).bytes) := by
  induction as with
  | nil => exact .inr (.inl ⟨rfl, rfl⟩)
  | cons a as ih =>
    cases a with
    | pause =>
      cases mode with
      | nonblocking => exact .inr (.inr ⟨rfl, by simp, as, rfl, rfl⟩)
      | blocking =>
        obtain ⟨b, bs, as', hr, hl, hb, -⟩ | ⟨hb, hr⟩ | ⟨h, -⟩ := ih
        · exact .inl ⟨b, bs, as', hr, hl, hb, by simp⟩
        · exact .inr (.inl ⟨hb, hr⟩)
        · cases h
    | data seg =>
      cases seg with
      | nil =>
        obtain ⟨b, bs, as', hr, hl, hb, hp⟩ | ⟨hb, hr⟩ | ⟨hm, hp, hr⟩ := ih
        · exact .inl ⟨b, bs, as', hr, hl, hb, fun h => hp (by simpa using h)⟩
        · exact .inr (.inl ⟨hb, hr⟩)
        · exact .inr (.inr ⟨hm, by simp [hp], hr⟩)
      | cons b bs =>
        obtain ⟨n, rfl⟩ := Nat.exists_eq_succ_of_ne_zero hn
        refine .inl ⟨b, bs.take n, .data ((b :: bs).drop (n + 1)) :: as, rfl, ?_, ?_, ?_⟩
        · simp only [List.length_cons, List.length_take]
          omega
        · simp only [Peer.bytes, List.flatMap_cons, List.drop_succ_cons, ← List.append_assoc,
            List.cons_append, List.take_append_drop]
        · simp

namespace Peer

/-- What one `recv` can do: take a non-empty part of what is to come, report the end
once nothing is left, or, without blocking, meet a pause. -/
theorem recv_cases (mode : Mode) {n : Nat} (hn : n ≠ 0) (p : Peer α) :
    (∃ b bs p', p.recv mode n = (.data (b :: bs), p') ∧ (b :: bs).length ≤ n ∧
      p.bytes = b :: bs ++ p'.bytes ∧ p'.ending = p.ending ∧ (p.Pauseless → p'.Pauseless)) ∨
    (p.bytes = [] ∧ p.recv mode n = (p.ending.result, ⟨[], p.ending⟩)) ∨
    (mode = .nonblocking ∧ ¬ p.Pauseless ∧
      ∃ p', p.recv mode n = (.again, p') ∧ p'.bytes = p.bytes) := by
  obtain ⟨as, ending⟩ := p
  obtain ⟨b, bs, as', hr, hl, hb, hp⟩ | ⟨hb, hr⟩ | ⟨hm, hp, as', hr, hb⟩ :=
    recvArrivals_cases mode hn ending as
  · exact .inl ⟨b, bs, ⟨as', ending⟩, by simp [recv, hn, hr], hl, hb, rfl, hp⟩
  · exact .inr (.inl ⟨hb, by simp [recv, hn, hr]⟩)
  · exact .inr (.inr ⟨hm, by simpa [Pauseless] using hp, ⟨as', ending⟩, by simp [recv, hn, hr], hb⟩)

/-- The peers whose `recv` results over a run all come from peers of the same kind, and
none of them is a pause. -/
structure Steady (mode : Mode) (C : Peer α → Prop) : Prop where
  noPause : ∀ {p}, C p → mode = .blocking ∨ p.Pauseless
  recv : ∀ {p p' n bs}, C p → p.recv mode n = (.data bs, p') → C p'

theorem recv_data {mode : Mode} {n : Nat} {p p' : Peer α} {bs : List α}
    (h : p.recv mode n = (.data bs, p')) :
    bs ≠ [] ∧ bs.length ≤ n ∧ p.bytes = bs ++ p'.bytes ∧ p'.ending = p.ending := by
  have hn : n ≠ 0 := by
    rintro rfl
    simp [recv] at h
  obtain ⟨b, cs, q, hr, hl, hb, he, -⟩ | ⟨-, hr⟩ | ⟨-, -, q, hr, -⟩ := recv_cases mode hn p
  · rw [hr] at h
    cases h
    exact ⟨by simp, hl, hb, he⟩
  · rw [hr] at h
    cases he : p.ending <;> simp [Ending.result, he] at h
  · rw [hr] at h
    cases h

/-- Every `recv` that returns data shortens what is to come. -/
theorem recv_size_lt {mode : Mode} {n : Nat} {p p' : Peer α} {bs : List α}
    (h : p.recv mode n = (.data bs, p')) : p'.size < p.size := by
  obtain ⟨hne, -, hb, -⟩ := recv_data h
  have := List.length_pos_iff.mpr hne
  simp only [size, hb, List.length_append]
  omega

theorem recv_ending (mode : Mode) (n : Nat) (p : Peer α) :
    (p.recv mode n).2.ending = p.ending := by
  unfold recv
  split <;> rfl

theorem recv_size_le {mode : Mode} {n : Nat} {p p' : Peer α} {r : RecvResult α}
    (h : p.recv mode n = (r, p')) : p'.size ≤ p.size := by
  by_cases hn : n = 0
  · simp only [Peer.recv, hn, ↓reduceIte, Prod.mk.injEq] at h
    exact Nat.le_of_eq (congrArg Peer.size h.2.symm)
  · obtain ⟨b, cs, q, hr, -⟩ | ⟨-, hr⟩ | ⟨-, -, q, hr, hb⟩ := recv_cases mode hn p
    · have hlt := recv_size_lt hr
      rw [hr] at h
      cases h
      exact Nat.le_of_lt hlt
    · rw [hr] at h
      cases h
      exact Nat.zero_le _
    · rw [hr] at h
      cases h
      simp only [size, hb, Nat.le_refl]

/-- A pause comes before the next byte. -/
def pauseFirst : List (Arrival α) → Bool
  | [] => false
  | .pause :: _ => true
  | .data [] :: as => pauseFirst as
  | .data (_ :: _) :: _ => false

def AtPause (p : Peer α) : Prop := pauseFirst p.arrivals = true

theorem recvArrivals_of_pauseFirst (n : Nat) (ending : Ending) {as : List (Arrival α)}
    (h : pauseFirst as = true) : ∃ as', recvArrivals .nonblocking n ending as = (.again, as') := by
  induction as with
  | nil => cases h
  | cons a as ih =>
    cases a with
    | pause => exact ⟨as, rfl⟩
    | data seg =>
      cases seg with
      | nil => exact ih h
      | cons b bs => cases h

theorem recvArrivals_of_not_pauseFirst {n : Nat} {ending : Ending} {as : List (Arrival α)}
    (h : pauseFirst as = false) :
    recvArrivals .nonblocking n ending as = recvArrivals .blocking n ending as := by
  induction as with
  | nil => rfl
  | cons a as ih =>
    cases a with
    | pause => cases h
    | data seg =>
      cases seg with
      | nil => exact ih h
      | cons b bs => rfl

theorem recv_of_atPause {n : Nat} {p : Peer α} (hn : n ≠ 0) (h : p.AtPause) :
    ∃ p', p.recv .nonblocking n = (.again, p') := by
  obtain ⟨as, has⟩ := recvArrivals_of_pauseFirst n p.ending h
  exact ⟨{ p with arrivals := as }, by simp [recv, hn, has]⟩

theorem recv_of_not_atPause {n : Nat} {p : Peer α} (h : n ≠ 0 → ¬ p.AtPause) :
    p.recv .nonblocking n = p.recv .blocking n := by
  by_cases hn : n = 0
  · simp [recv, hn]
  · have hfirst : pauseFirst p.arrivals = false := by
      simpa [AtPause] using h hn
    simp only [recv, recvArrivals_of_not_pauseFirst hfirst]

/-- The peer once bytes or its end can be read: the pauses in front are over. -/
def readable (p : Peer α) : Peer α :=
  { p with arrivals := p.arrivals.dropWhile fun
      | .pause => true
      | .data bytes => bytes.isEmpty }

theorem recv_readable {n : Nat} (hn : n ≠ 0) (p : Peer α) :
    p.readable.recv .blocking n = p.recv .blocking n := by
  obtain ⟨as, ending⟩ := p
  have has : ∀ as : List (Arrival α), recvArrivals .blocking n ending (as.dropWhile fun
      | .pause => true
      | .data bytes => bytes.isEmpty) = recvArrivals .blocking n ending as := by
    intro as
    induction as with
    | nil => rfl
    | cons a as ih =>
      cases a with
      | pause => exact ih
      | data seg =>
        cases seg with
        | nil => exact ih
        | cons b bs => rfl
  simp only [recv, hn, ↓reduceIte, readable, has]

theorem steady_blocking : Steady (α := α) .blocking fun _ => True :=
  ⟨fun _ => .inl rfl, fun _ _ => trivial⟩

theorem steady_pauseless (mode : Mode) : Steady (α := α) mode Pauseless where
  noPause := .inr
  recv {p p' n bs} hp h := by
    have hn : n ≠ 0 := by
      rintro rfl
      simp [Peer.recv] at h
    obtain ⟨b, cs, q, hr, -, -, -, hq⟩ | ⟨-, hr⟩ | ⟨-, hnp, -⟩ := recv_cases mode hn p
    · rw [hr] at h
      cases h
      exact hq hp
    · rw [hr] at h
      cases he : p.ending <;> simp [Ending.result, he] at h
    · exact absurd hp hnp

/-- Everything still to come arrives at once. -/
def Lump (p : Peer α) : Prop := ∃ bs, p.arrivals = [.data bs]

/-- What is still to come arrives byte by byte. -/
def Trickle (p : Peer α) : Prop := ∀ a ∈ p.arrivals, ∃ bs, a = .data bs ∧ bs.length ≤ 1

theorem trickle_singletons (bs : List α) (ending : Ending) :
    (⟨(bs.map fun b => [b]).map .data, ending⟩ : Peer α).Trickle := by
  intro a ha
  obtain ⟨seg, hseg, rfl⟩ := List.mem_map.mp ha
  obtain ⟨b, -, rfl⟩ := List.mem_map.mp hseg
  exact ⟨[b], rfl, Nat.le_refl _⟩

theorem flatten_singletons (bs : List α) : (bs.map fun b => [b]).flatten = bs := by
  rw [← List.flatMap_def, List.flatMap_singleton']

theorem Lump.recv {mode : Mode} {n : Nat} {p p' : Peer α} {bs : List α} (hp : p.Lump)
    (h : p.recv mode n = (.data bs, p')) : p'.Lump ∧ (bs.length = n ∨ p'.bytes = []) := by
  obtain ⟨seg, hseg⟩ := hp
  by_cases hn : n = 0
  · simp [Peer.recv, hn] at h
  · cases seg with
    | nil =>
      simp only [Peer.recv, hn, ↓reduceIte, hseg, recvArrivals, Prod.mk.injEq] at h
      cases he : p.ending <;> simp [he, Ending.result] at h
    | cons b seg =>
      simp only [Peer.recv, hn, ↓reduceIte, hseg, recvArrivals, Prod.mk.injEq,
        RecvResult.data.injEq] at h
      obtain ⟨rfl, rfl⟩ := h
      refine ⟨⟨_, rfl⟩, ?_⟩
      simp only [List.length_take, bytes, List.flatMap_cons, List.flatMap_nil, List.append_nil,
        List.drop_eq_nil_iff]
      omega

theorem steady_lump (mode : Mode) : Steady (α := α) mode Lump where
  noPause {p} hp := by
    obtain ⟨seg, hseg⟩ := hp
    exact .inr (by simp [Pauseless, hseg])
  recv hp h := (hp.recv h).1

private theorem trickle_arrivals {mode : Mode} {n : Nat} {ending : Ending}
    {as as' : List (Arrival α)} {bs : List α}
    (hp : ∀ a ∈ as, ∃ bs, a = .data bs ∧ bs.length ≤ 1)
    (h : recvArrivals mode n ending as = (.data bs, as')) :
    (∀ a ∈ as', ∃ bs, a = .data bs ∧ bs.length ≤ 1) ∧ bs.length ≤ 1 := by
  induction as with
  | nil => cases ending <;> simp [recvArrivals, Ending.result] at h
  | cons a as ih =>
    obtain ⟨seg, rfl, hseg⟩ := hp a (by simp)
    have htail : ∀ a ∈ as, ∃ bs, a = .data bs ∧ bs.length ≤ 1 := fun a ha => hp a (by simp [ha])
    cases seg with
    | nil => exact ih htail h
    | cons b seg =>
      simp only [recvArrivals, Prod.mk.injEq, RecvResult.data.injEq] at h
      obtain ⟨rfl, rfl⟩ := h
      have : ((b :: seg).drop n).length ≤ 1 := by
        rw [List.length_drop]
        omega
      refine ⟨?_, ?_⟩
      · intro a ha
        rcases List.mem_cons.mp ha with rfl | ha
        · exact ⟨_, rfl, this⟩
        · exact htail a ha
      · rw [List.length_take]
        omega

theorem Trickle.recv {mode : Mode} {n : Nat} {p p' : Peer α} {bs : List α} (hp : p.Trickle)
    (h : p.recv mode n = (.data bs, p')) : p'.Trickle ∧ bs.length ≤ 1 := by
  by_cases hn : n = 0
  · simp [Peer.recv, hn] at h
  · simp only [Peer.recv, hn, ↓reduceIte, Prod.mk.injEq] at h
    obtain ⟨hr, rfl⟩ := h
    exact trickle_arrivals hp (Prod.ext hr rfl)

theorem steady_trickle (mode : Mode) : Steady (α := α) mode Trickle where
  noPause {p} hp := by
    refine .inr fun hpause => ?_
    obtain ⟨bs, hbs, -⟩ := hp _ hpause
    cases hbs
  recv hp h := (hp.recv h).1

end Peer

/-- The offsets at which the arrivals end. -/
def arrivalEnds : List (Arrival α) → List Nat
  | [] => []
  | .pause :: as => arrivalEnds as
  | .data bs :: as => bs.length :: (arrivalEnds as).map (bs.length + ·)

/-- The arrivals from offset `n` of the stream on. -/
def dropArrivals : Nat → List (Arrival α) → List (Arrival α)
  | _, [] => []
  | n, .pause :: as => if n = 0 then .pause :: as else dropArrivals n as
  | n, .data bs :: as =>
    if n ≤ bs.length then .data (bs.drop n) :: as else dropArrivals (n - bs.length) as

@[simp] theorem dropArrivals_zero (as : List (Arrival α)) : dropArrivals 0 as = as := by
  rcases as with _ | ⟨_ | bs, as⟩ <;> simp [dropArrivals]

theorem dropArrivals_dropArrivals (n m : Nat) (as : List (Arrival α)) :
    dropArrivals m (dropArrivals n as) = dropArrivals (n + m) as := by
  induction as generalizing n with
  | nil => rfl
  | cons a as ih =>
    by_cases hn : n = 0
    · rw [hn, dropArrivals_zero, Nat.zero_add]
    cases a with
    | pause => simp [dropArrivals, hn, ih]
    | data bs =>
      by_cases hle : n ≤ bs.length
      · have hiff : m ≤ bs.length - n ↔ n + m ≤ bs.length := by omega
        simp only [dropArrivals, hle, ↓reduceIte, List.length_drop, hiff, List.drop_drop]
        rw [show m - (bs.length - n) = n + m - bs.length by omega]
      · have hlt : ¬ n + m ≤ bs.length := by omega
        simp only [dropArrivals, hle, hlt, ↓reduceIte, ih]
        rw [show n - bs.length + m = n + m - bs.length by omega]

theorem mem_arrivalEnds_drop {n m : Nat} {as : List (Arrival α)} :
    m ∈ arrivalEnds (dropArrivals n as) ↔ n + m ∈ arrivalEnds as := by
  induction as generalizing n with
  | nil => simp [dropArrivals, arrivalEnds]
  | cons a as ih =>
    by_cases hn : n = 0
    · rw [hn, dropArrivals_zero, Nat.zero_add]
    cases a with
    | pause => simp [dropArrivals, arrivalEnds, hn, ih]
    | data bs =>
      by_cases hle : n ≤ bs.length
      · simp only [dropArrivals, hle, ↓reduceIte, arrivalEnds, List.mem_cons, List.mem_map,
          List.length_drop]
        refine or_congr (by omega) (exists_congr fun k => and_congr_right fun _ => ?_)
        omega
      · simp only [dropArrivals, hle, ↓reduceIte, arrivalEnds, List.mem_cons, List.mem_map, ih]
        constructor
        · intro h
          exact .inr ⟨_, h, by omega⟩
        · rintro (h | ⟨k, hk, hkm⟩)
          · omega
          · rwa [show n - bs.length + m = k by omega]

namespace Peer

/-- The peer once `n` bytes of it have been read. -/
def drop (n : Nat) (p : Peer α) : Peer α := { p with arrivals := dropArrivals n p.arrivals }

@[simp] theorem drop_zero (p : Peer α) : p.drop 0 = p := by
  simp [drop]

theorem drop_drop (n m : Nat) (p : Peer α) : (p.drop n).drop m = p.drop (n + m) := by
  simp [drop, dropArrivals_dropArrivals]

@[simp] theorem bytes_nil (ending : Ending) : (⟨[], ending⟩ : Peer α).bytes = [] := rfl

@[simp] theorem bytes_pause (as : List (Arrival α)) (ending : Ending) :
    (⟨.pause :: as, ending⟩ : Peer α).bytes = (⟨as, ending⟩ : Peer α).bytes := rfl

@[simp] theorem bytes_data (bs : List α) (as : List (Arrival α)) (ending : Ending) :
    (⟨.data bs :: as, ending⟩ : Peer α).bytes = bs ++ (⟨as, ending⟩ : Peer α).bytes := rfl

theorem bytes_drop (n : Nat) (p : Peer α) : (p.drop n).bytes = p.bytes.drop n := by
  obtain ⟨as, ending⟩ := p
  unfold drop
  dsimp only
  induction as generalizing n with
  | nil => simp [dropArrivals]
  | cons a as ih =>
    by_cases hn : n = 0
    · simp [hn]
    cases a with
    | pause => simpa [dropArrivals, hn] using ih n
    | data bs =>
      by_cases hle : n ≤ bs.length
      · simp [dropArrivals, hle, List.drop_append_of_le_length hle]
      · have hnil : bs.drop n = [] := List.drop_eq_nil_of_le (by omega)
        simpa [dropArrivals, hle, List.drop_append, hnil] using ih (n - bs.length)

/-- A blocking call takes the bytes up to the next end of an arrival, as far as there is
space. -/
theorem recv_blocking {n : Nat} (hn : n ≠ 0) {p : Peer α} (hp : p.bytes ≠ []) :
    ∃ m, p.recv .blocking n = (.data (p.bytes.take m), p.drop m) ∧ 0 < m ∧
      m ≤ p.bytes.length ∧ m ≤ n ∧ (m = n ∨ m ∈ arrivalEnds p.arrivals) ∧
      ∀ k ∈ arrivalEnds p.arrivals, 0 < k → m ≤ k := by
  obtain ⟨as, ending⟩ := p
  simp only [recv, hn, ↓reduceIte, drop]
  induction as with
  | nil => exact absurd rfl hp
  | cons a as ih =>
    cases a with
    | pause =>
      obtain ⟨m, hr, hpos, hrest⟩ := ih hp
      have hm : m ≠ 0 := by omega
      exact ⟨m, by simpa [recvArrivals, dropArrivals, hm] using hr, hpos, hrest⟩
    | data bs =>
      cases bs with
      | nil =>
        obtain ⟨m, hr, hpos, hlen, hle, hend, hfirst⟩ := ih hp
        have hm : m ≠ 0 := by omega
        refine ⟨m, by simpa [recvArrivals, dropArrivals, hm] using hr, hpos, hlen, hle, ?_, ?_⟩
        · exact hend.imp_right fun h => by simpa [arrivalEnds] using .inr h
        · intro k hk hpos
          apply hfirst k _ hpos
          simpa [arrivalEnds, show k ≠ 0 by omega] using hk
      | cons b bs =>
        have hle : min n (bs.length + 1) ≤ (b :: bs).length := Nat.min_le_right ..
        have htake : (b :: bs).take (min n (bs.length + 1)) = (b :: bs).take n := by
          rw [List.take_eq_take_iff]
          simp
        have hdrop : (b :: bs).drop (min n (bs.length + 1)) = (b :: bs).drop n := by
          rw [List.drop_eq_drop_iff]
          simp
        refine ⟨min n (bs.length + 1), ?_, by omega, ?_, by omega, ?_, ?_⟩
        · simp only [recvArrivals, dropArrivals, hle, ↓reduceIte, bytes_data, hdrop,
            List.take_append_of_le_length hle, htake]
        · rw [bytes_data, List.length_append]
          omega
        · by_cases hspace : n ≤ bs.length + 1
          · exact .inl (by omega)
          · refine .inr (List.mem_cons.mpr (.inl ?_))
            simp only [List.length_cons]
            omega
        · intro k hk hpos
          simp only [arrivalEnds, List.length_cons, List.mem_cons, List.mem_map] at hk
          obtain rfl | ⟨j, -, rfl⟩ := hk <;> omega

/-- The segments arrive one by one, and then what `p` sends. -/
def behind (segs : List (List α)) (p : Peer α) : Peer α :=
  { p with arrivals := segs.map .data ++ p.arrivals }

theorem recv_behind (mode : Mode) {n : Nat} (hn : n ≠ 0) {segs : List (List α)}
    (hne : segs.flatten ≠ []) (p : Peer α) :
    ∃ bs segs', (p.behind segs).recv mode n = (.data bs, p.behind segs') ∧
      segs.flatten = bs ++ segs'.flatten := by
  simp only [recv, hn, ↓reduceIte, behind]
  induction segs with
  | nil => exact absurd rfl hne
  | cons seg segs ih =>
    cases seg with
    | nil =>
      obtain ⟨bs, segs', hr, hflat⟩ := ih hne
      exact ⟨bs, segs', hr, hflat⟩
    | cons b bs =>
      refine ⟨(b :: bs).take n, (b :: bs).drop n :: segs, rfl, ?_⟩
      rw [List.flatten_cons, List.flatten_cons, ← List.append_assoc, List.take_append_drop]

theorem recv_behind_blank (mode : Mode) {n : Nat} (hn : n ≠ 0) {segs : List (List α)}
    (hblank : segs.flatten = []) (p : Peer α) : (p.behind segs).recv mode n = p.recv mode n := by
  simp only [recv, hn, ↓reduceIte, behind]
  induction segs with
  | nil => rfl
  | cons seg segs ih =>
    rw [List.flatten_cons, List.append_eq_nil_iff] at hblank
    obtain ⟨rfl, hblank⟩ := hblank
    exact ih hblank

end Peer
end Wire
