import Mathlib.Tactic.Common
import MinhServer.Library.CString

namespace LexicalPath
open CString

variable {α : Type*}

inductive Component (α : Type*) where
  | up
  | name (a : α)
  deriving DecidableEq, Repr

/-- A place reached lexically: from the root or from the start, `ups` levels up and then
down through `names`. -/
structure Loc (α : Type*) where
  rooted : Bool
  ups : Nat
  names : List α
  deriving DecidableEq, Repr

namespace Loc

def here : Loc α := ⟨false, 0, []⟩

/-- One component; above the root there is only the root. -/
def enter (l : Loc α) : Component α → Loc α
  | .name a => { l with names := l.names ++ [a] }
  | .up =>
    if l.names.isEmpty then if l.rooted then l else { l with ups := l.ups + 1 }
    else { l with names := l.names.dropLast }

def walk (l : Loc α) (cs : List (Component α)) : Loc α := cs.foldl enter l

/-- Leaving `u` levels and entering `ns`. -/
def move (l : Loc α) (u : Nat) (ns : List α) : Loc α where
  rooted := l.rooted
  ups := if l.rooted then l.ups else l.ups + (u - l.names.length)
  names := l.names.take (l.names.length - u) ++ ns

/-- `f` is `d` or lies below it. -/
structure Inside (d f : Loc α) : Prop where
  rooted : d.rooted = f.rooted
  ups : d.ups = f.ups
  names : d.names <+: f.names

@[simp] theorem walk_nil (l : Loc α) : l.walk [] = l := rfl

theorem walk_append (l : Loc α) (cs ds : List (Component α)) :
    l.walk (cs ++ ds) = (l.walk cs).walk ds := List.foldl_append

@[simp] theorem enter_rooted (l : Loc α) (c : Component α) : (l.enter c).rooted = l.rooted := by
  cases c with
  | name a => rfl
  | up =>
    unfold enter
    split_ifs <;> rfl

theorem move_enter_name (l : Loc α) (u : Nat) (ns : List α) (a : α) :
    (l.move u ns).enter (.name a) = l.move u (ns ++ [a]) := by
  unfold move enter
  simp only [List.append_assoc]

theorem move_enter_up_of_ne_nil (l : Loc α) (u : Nat) {ns : List α} (h : ns ≠ []) :
    (l.move u ns).enter .up = l.move u ns.dropLast := by
  have hne : (l.names.take (l.names.length - u) ++ ns).isEmpty = false := by simp [h]
  unfold move enter
  simp only [hne, Bool.false_eq_true, ↓reduceIte, List.dropLast_append_of_ne_nil h]

theorem move_enter_up_nil (l : Loc α) (u : Nat) :
    (l.move u []).enter .up = l.move (u + 1) [] := by
  unfold move enter
  simp only [List.append_nil]
  by_cases hu : l.names.length ≤ u
  · have hempty : l.names.take (l.names.length - u) = [] := by
      rw [Nat.sub_eq_zero_of_le hu, List.take_zero]
    have hempty' : l.names.take (l.names.length - (u + 1)) = [] := by
      rw [Nat.sub_eq_zero_of_le (by omega), List.take_zero]
    rw [hempty, hempty']
    cases l.rooted with
    | true => rfl
    | false =>
      simp only [List.isEmpty_nil, ↓reduceIte, Bool.false_eq_true, mk.injEq, true_and, and_true]
      omega
  · have hpos : (l.names.take (l.names.length - u)).isEmpty = false := by
      rw [List.isEmpty_eq_false_iff, ← List.length_pos_iff, List.length_take]
      omega
    have hups : l.names.length - u ≠ 0 := by omega
    simp only [hpos, Bool.false_eq_true, ↓reduceIte, mk.injEq, true_and]
    refine ⟨?_, ?_⟩
    · rw [Nat.sub_eq_zero_of_le (by omega), Nat.sub_eq_zero_of_le (by omega)]
    · rw [List.dropLast_eq_take, List.take_take, List.length_take]
      congr 1
      omega

theorem here_rooted (cs : List (Component α)) : (here.walk cs).rooted = false := by
  induction cs using List.reverseRecOn with
  | nil => rfl
  | append_singleton cs c ih => rw [walk_append, walk, List.foldl_cons, List.foldl_nil,
      enter_rooted, ih]

theorem walk_eq_move (l : Loc α) (cs : List (Component α)) :
    l.walk cs = l.move (here.walk cs).ups (here.walk cs).names := by
  induction cs using List.reverseRecOn with
  | nil => simp [move, here]
  | append_singleton cs c ih =>
    have hstep : ∀ m : Loc α, m.walk (cs ++ [c]) = (m.walk cs).enter c := fun m => by
      rw [walk_append]
      rfl
    have hroot := here_rooted (α := α) cs
    rw [hstep, hstep, ih]
    generalize here.walk cs = r at hroot ⊢
    cases c with
    | name a => exact move_enter_name l r.ups r.names a
    | up =>
      by_cases hn : r.names = []
      · rw [hn, move_enter_up_nil]
        simp [enter, hn, hroot]
      · rw [move_enter_up_of_ne_nil l r.ups hn]
        have hne : r.names.isEmpty = false := by simpa using hn
        simp [enter, hne]

theorem enter_names (l : Loc α) (c : Component α) :
    (l.enter c).names <+: l.names ∨ l.names <+: (l.enter c).names := by
  cases c with
  | name a => exact .inr (List.prefix_append _ _)
  | up =>
    unfold enter
    split_ifs
    · exact .inl (List.prefix_refl _)
    · exact .inl (List.prefix_refl _)
    · exact .inl (List.dropLast_prefix _)

theorem prefix_append_iff {a p : List α} (ns : List α) (h : a <+: p ∨ p <+: a) :
    a <+: p ++ ns ↔ a.drop p.length <+: ns := by
  rcases h with h | h
  · rw [List.drop_eq_nil_of_le h.length_le]
    exact iff_of_true (h.trans (List.prefix_append _ _)) (List.nil_prefix)
  · obtain ⟨t, rfl⟩ := h
    rw [List.prefix_append_right_inj, List.drop_left]

theorem inside_move_iff {b d : Loc α} {u : Nat} {ns : List α} (hroot : d.rooted = b.rooted)
    (hups : b.rooted = true → d.ups = b.ups)
    (hnames : d.names <+: b.names ∨ b.names <+: d.names) :
    Inside d (b.move u ns) ↔
      (b.rooted = true ∨ d.ups = b.ups + (u - b.names.length)) ∧
        d.names.drop (b.names.length - u) <+: ns := by
  have hcomp : d.names <+: b.names.take (b.names.length - u) ∨
      b.names.take (b.names.length - u) <+: d.names := by
    rcases hnames with h | h
    · exact List.prefix_or_prefix_of_prefix h (List.take_prefix _ _)
    · exact .inr ((List.take_prefix _ _).trans h)
  have hlen : (b.names.take (b.names.length - u)).length = b.names.length - u := by
    rw [List.length_take]
    omega
  have hprefix : d.names <+: (b.move u ns).names ↔ d.names.drop (b.names.length - u) <+: ns := by
    have := prefix_append_iff ns hcomp
    rwa [hlen] at this
  have hup : d.ups = (b.move u ns).ups ↔
      (b.rooted = true ∨ d.ups = b.ups + (u - b.names.length)) := by
    unfold move
    cases hb : b.rooted with
    | true => simp [hups hb]
    | false => simp
  exact ⟨fun h => ⟨hup.mp h.ups, hprefix.mp h.names⟩,
    fun h => ⟨hroot, hup.mpr h.1, hprefix.mpr h.2⟩⟩

end Loc

/-- Empty components and `.` mean nothing. -/
def component? (s : Bytes) : Option (Component Bytes) :=
  if s = [] ∨ s = [46] then none else if s = [46, 46] then some .up else some (.name s)

def components (s : Bytes) : List (Component Bytes) := (s.splitOn 47).filterMap component?

def relative (s : Bytes) : Loc Bytes := Loc.here.walk (components s)

/-- A file name after its components are resolved. -/
def resolve (s : Bytes) : Loc Bytes := Loc.walk ⟨s.head? == some 47, 0, []⟩ (components s)

/-- `s` up to and with its last slash. -/
def dirPart (s : Bytes) : Bytes :=
  match strrchr s 47 with
  | some i => s.take (i + 1)
  | none => []

def lastPart (s : Bytes) : Bytes :=
  match strrchr s 47 with
  | some i => s.drop (i + 1)
  | none => s

theorem components_slash (a b : Bytes) :
    components (a ++ 47 :: b) = components a ++ components b := by
  unfold components
  rw [List.splitOn_append_cons_self, List.filterMap_append]

theorem components_nil : components [] = [] := rfl

theorem components_of_no_slash {s : Bytes} (h : 47 ∉ s) :
    components s = (component? s).toList := by
  unfold components
  rw [List.splitOn_eq_singleton h]
  cases hc : component? s <;> simp [hc]

theorem dir_cases (s : Bytes) :
    (∃ a, s = a ++ 47 :: lastPart s ∧ dirPart s = a ++ [47] ∧ 47 ∉ lastPart s) ∨
      (dirPart s = [] ∧ lastPart s = s ∧ 47 ∉ s) := by
  unfold dirPart lastPart
  cases h : strrchr s 47 with
  | none => exact .inr ⟨rfl, rfl, strrchr_eq_none_iff.mp h⟩
  | some i =>
    obtain ⟨a, b, rfl, rfl, hb⟩ := strrchr_spec h
    have hsplit : a ++ 47 :: b = (a ++ [47]) ++ b := by simp
    have hlen : a.length + 1 = (a ++ [47]).length := by simp
    refine .inl ⟨a, ?_, ?_, ?_⟩
    · simp only [hsplit, hlen, List.drop_left]
    · simp only [hsplit, hlen, List.take_left]
    · simpa only [hsplit, hlen, List.drop_left] using hb

theorem lastPart_no_slash (s : Bytes) : 47 ∉ lastPart s := by
  rcases dir_cases s with ⟨-, -, -, h⟩ | ⟨-, h, h'⟩
  · exact h
  · rwa [h]

/-- The components of a text put after `s` are those of the directory of `s`, then those of
the rest with the text joined to it. -/
theorem components_append (s t : Bytes) :
    components (s ++ t) = components (dirPart s) ++ components (lastPart s ++ t) := by
  rcases dir_cases s with ⟨a, hs, hd, -⟩ | ⟨hd, hl, -⟩
  · have hsplit : s ++ t = a ++ 47 :: (lastPart s ++ t) := by
      conv_lhs => rw [hs]
      simp
    rw [hsplit, hd, components_slash, components_slash, components_nil, List.append_nil]
  · rw [hd, hl, components_nil, List.nil_append]

theorem head?_dirPart {s t : Bytes} (h : s ≠ [] ∨ t.head? ≠ some 47) :
    ((dirPart s).head? == some 47) = ((s ++ t).head? == some 47) := by
  rcases dir_cases s with ⟨a, hs, hd, -⟩ | ⟨hd, -, hslash⟩
  · rw [hd]
    conv_rhs => rw [hs]
    cases a <;> rfl
  · cases s with
    | nil =>
      have ht : (t.head? == some 47) = false := by simpa using h
      rw [hd, List.nil_append, ht]
      rfl
    | cons b u =>
      have hb : b ≠ 47 := fun he => hslash (by simp [he])
      simp [hd, hb]

theorem resolve_append {s t : Bytes} (h : s ≠ [] ∨ t.head? ≠ some 47) :
    resolve (s ++ t) = (resolve (dirPart s)).move (relative (lastPart s ++ t)).ups
      (relative (lastPart s ++ t)).names := by
  unfold resolve relative
  rw [← head?_dirPart h, components_append, Loc.walk_append, Loc.walk_eq_move _ (components _)]

theorem resolve_eq_or_enter (s : Bytes) :
    resolve s = resolve (dirPart s) ∨ ∃ c, resolve s = (resolve (dirPart s)).enter c := by
  have hres : resolve s = (resolve (dirPart s)).walk (component? (lastPart s)).toList := by
    have hcomp := components_append s []
    have hhead := head?_dirPart (s := s) (t := []) (.inr (by simp))
    rw [List.append_nil, List.append_nil, components_of_no_slash (lastPart_no_slash s)] at hcomp
    rw [List.append_nil] at hhead
    unfold resolve
    rw [hcomp, Loc.walk_append, hhead]
  rw [hres]
  cases component? (lastPart s) with
  | none => exact .inl rfl
  | some c => exact .inr ⟨c, rfl⟩

theorem rooted_resolve (s : Bytes) : (resolve s).rooted = (s.head? == some 47) := by
  unfold resolve
  rw [Loc.walk_eq_move]
  rfl

/-- Names put after the directory `home` that stay inside it: the text from the last slash
of `home` on, with the name joined to it, leaves `u` levels of the directory part and then
enters again all that `home` has from there on. -/
structure StaysInside (home tail : Bytes) : Prop where
  root : home ≠ [] ∨ tail.head? ≠ some 47
  ups : (resolve (dirPart home)).rooted = true ∨ (resolve home).ups =
    (resolve (dirPart home)).ups +
      ((relative (lastPart home ++ tail)).ups - (resolve (dirPart home)).names.length)
  names : (resolve home).names.drop
    ((resolve (dirPart home)).names.length - (relative (lastPart home ++ tail)).ups) <+:
      (relative (lastPart home ++ tail)).names

theorem inside_append_iff (home tail : Bytes) :
    Loc.Inside (resolve home) (resolve (home ++ tail)) ↔ StaysInside home tail := by
  have hiff : StaysInside home tail ↔ (home ≠ [] ∨ tail.head? ≠ some 47) ∧
      ((resolve (dirPart home)).rooted = true ∨ _ = _) ∧ _ <+: _ :=
    ⟨fun h => ⟨h.root, h.ups, h.names⟩, fun h => ⟨h.1, h.2.1, h.2.2⟩⟩
  have hroot : (resolve home).rooted = (resolve (dirPart home)).rooted := by
    rcases resolve_eq_or_enter home with h | ⟨c, h⟩
    · rw [h]
    · rw [h, Loc.enter_rooted]
  have hups : (resolve (dirPart home)).rooted = true →
      (resolve home).ups = (resolve (dirPart home)).ups := by
    intro hb
    rcases resolve_eq_or_enter home with h | ⟨c, h⟩
    · rw [h]
    · rw [h]
      cases c with
      | name a => rfl
      | up => simp [Loc.enter, hb]; split <;> rfl
  have hnames : (resolve home).names <+: (resolve (dirPart home)).names ∨
      (resolve (dirPart home)).names <+: (resolve home).names := by
    rcases resolve_eq_or_enter home with h | ⟨c, h⟩
    · rw [h]
      exact .inl (List.prefix_refl _)
    · rw [h]
      exact Loc.enter_names _ c
  rw [hiff]
  by_cases h : home ≠ [] ∨ tail.head? ≠ some 47
  · rw [resolve_append h, Loc.inside_move_iff hroot hups hnames]
    exact ⟨fun hi => ⟨h, hi⟩, fun hi => hi.2⟩
  · -- an absolute name after an empty directory
    simp only [ne_eq, not_or, Decidable.not_not] at h
    refine iff_of_false (fun hi => ?_) fun hi => hi.1.elim (· h.1) (· h.2)
    have := hi.rooted
    rw [rooted_resolve, rooted_resolve, h.1, List.nil_append, h.2] at this
    cases this

end LexicalPath
