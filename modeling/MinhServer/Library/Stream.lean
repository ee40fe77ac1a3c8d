import Mathlib.Data.List.Infix

namespace Stream

section Reader
variable {α β : Type*} {read : List α → Option (β × List α)} {text rest : List α} {b : β}

/-- The text is read as `b`, whatever follows it. -/
structure Spells (read : List α → Option (β × List α)) (text : List α) (b : β) : Prop where
  nonempty : text ≠ []
  reads : ∀ rest, read (text ++ rest) = some (b, rest)

/-- The messages of a stream, if it ends with a message. -/
def readAll (read : List α → Option (β × List α)) (s : List α) : Option (List β) :=
  if s = [] then some []
  else
    match read s with
    | none => none
    | some (b, rest) =>
      if _h : rest.length < s.length then (readAll read rest).map (b :: ·) else none
termination_by s.length

theorem readAll_nil : readAll read [] = some [] := by rw [readAll, if_pos rfl]

theorem Spells.readAll_append (h : Spells read text b) (rest : List α) :
    readAll read (text ++ rest) = (readAll read rest).map (b :: ·) := by
  have hpos := List.length_pos_iff.mpr h.nonempty
  have hne : text ++ rest ≠ [] := List.append_ne_nil_of_left_ne_nil h.nonempty rest
  have hlt : rest.length < (text ++ rest).length := by
    rw [List.length_append]
    omega
  rw [readAll, if_neg hne, h.reads]
  dsimp only
  rw [dif_pos hlt]

theorem readAll_flatten {texts : List (List α)} {bs : List β}
    (h : List.Forall₂ (Spells read) texts bs) : readAll read texts.flatten = some bs := by
  induction h with
  | nil => exact readAll_nil
  | cons hb _ ih => rw [List.flatten_cons, hb.readAll_append, ih, Option.map_some]

end Reader

end Stream
