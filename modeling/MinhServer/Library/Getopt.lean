import MinhServer.Library.CString

namespace Getopt
open CString

structure LongOption where
  name : Bytes
  hasArg : Bool
  val : Byte

/-- The option string and the table of long options. -/
structure Options where
  short : Bytes
  long : List LongOption

/-- What one call returns, and the `optarg` it leaves. -/
structure Result where
  ch : Byte
  optarg : Option Bytes
  deriving DecidableEq, Repr

/-- The result `'?'`. -/
def unrecognized : Result := ⟨63, none⟩

namespace Options
variable (o : Options)

/-- Whether the short option takes an argument, if there is one. -/
def shortOption (c : Byte) : Option Bool :=
  match strchr o.short c with
  | none => none
  | some i => if c = 58 ∨ c = 59 then none else some (o.short[i + 1]? = some 58)

/-- The long option of that name, or else the one that the name abbreviates; several of them
must agree. -/
def longOption (name : Bytes) : Option LongOption :=
  match o.long.find? (·.name = name) with
  | some l => some l
  | none =>
    match o.long.filter fun l => name <+: l.name with
    | [] => none
    | l :: ls => if ls.all fun l' => l'.hasArg = l.hasArg ∧ l'.val = l.val then some l else none

/-- The letters of a cluster; the last one may want the next word as its argument. -/
def cluster : Bytes → List Result × Option Byte
  | [] => ([], none)
  | c :: cs =>
    match o.shortOption c with
    | none => let (results, pending) := cluster cs; (unrecognized :: results, pending)
    | some false => let (results, pending) := cluster cs; (⟨c, none⟩ :: results, pending)
    | some true => if cs = [] then ([], some c) else ([⟨c, some cs⟩], none)

/-- A word behind its `--`. -/
def longWord (word : Bytes) : List Result × Option Byte :=
  let name := word.takeWhile (· ≠ 61)
  match o.longOption name with
  | none => ([unrecognized], none)
  | some l =>
    match word.drop name.length with
    | _ :: value => ([if l.hasArg then ⟨l.val, some value⟩ else unrecognized], none)
    | [] => if l.hasArg then ([], some l.val) else ([⟨l.val, none⟩], none)

/-- A word that begins with `-`. -/
def optionWord (word : Bytes) : List Result × Option Byte :=
  match word with
  | 45 :: 45 :: rest => o.longWord rest
  | word => o.cluster word.tail

/-- The results for the rest of the argument vector, and the words that are no options. `pending`
is the option whose argument comes next. -/
def scan (posixlyCorrect : Bool) : Option Byte → List Bytes → List Result × List Bytes
  | none, [] => ([], [])
  | some _, [] => ([unrecognized], [])
  | some c, arg :: rest =>
    let (results, operands) := scan posixlyCorrect none rest
    (⟨c, some arg⟩ :: results, operands)
  | none, word :: rest =>
    if word = [45, 45] then ([], rest)
    else if word.head? = some 45 ∧ 1 < word.length then
      let (first, pending) := o.optionWord word
      let (results, operands) := scan posixlyCorrect pending rest
      (first ++ results, operands)
    else if posixlyCorrect then ([], word :: rest)
    else
      let (results, operands) := scan posixlyCorrect none rest
      (results, word :: operands)

/-- The results of `getopt_long` until it returns `-1`, and what is left from `optind` on. -/
def getoptLong (posixlyCorrect : Bool) (argv : List Bytes) : List Result × List Bytes :=
  o.scan posixlyCorrect none argv.tail

/-- The result comes with the argument that its option requires. -/
def HasArgument (r : Result) : Prop := o.shortOption r.ch = some true → r.optarg.isSome

variable {o}

theorem hasArgument_some (c : Byte) (arg : Bytes) : o.HasArgument ⟨c, some arg⟩ := fun _ => rfl

section Results
variable (hunrecognized : o.shortOption 63 = none)
include hunrecognized

theorem hasArgument_unrecognized : o.HasArgument unrecognized := by
  intro hrequired
  change o.shortOption 63 = some true at hrequired
  rw [hunrecognized] at hrequired
  cases hrequired

theorem cluster_hasArgument (word : Bytes) : ∀ r ∈ (o.cluster word).1, o.HasArgument r := by
  induction word with
  | nil => simp [cluster]
  | cons c cs ih =>
    unfold cluster
    split
    · exact List.forall_mem_cons.mpr ⟨hasArgument_unrecognized hunrecognized, ih⟩
    · next hnone =>
      refine List.forall_mem_cons.mpr ⟨fun hrequired => ?_, ih⟩
      rw [hnone] at hrequired
      cases hrequired
    · split
      · simp
      · exact List.forall_mem_singleton.mpr (hasArgument_some c cs)

/-- The long options say of their arguments what the option string says. -/
def Consistent (o : Options) : Prop := ∀ l ∈ o.long, o.shortOption l.val = some l.hasArg

omit hunrecognized in
theorem mem_of_longOption {name : Bytes} {l : LongOption} (h : o.longOption name = some l) :
    l ∈ o.long := by
  unfold longOption at h
  split at h
  · next hfound =>
    cases h
    exact List.mem_of_find?_eq_some hfound
  · split at h
    · cases h
    · next hfilter =>
      split at h
      · cases h
        exact (List.mem_filter.mp (hfilter ▸ List.mem_cons_self)).1
      · cases h

variable (hlong : o.Consistent)
include hlong

theorem longWord_hasArgument (word : Bytes) : ∀ r ∈ (o.longWord word).1, o.HasArgument r := by
  unfold longWord
  dsimp only
  split
  · exact List.forall_mem_singleton.mpr (hasArgument_unrecognized hunrecognized)
  · next l hl =>
    split
    · refine List.forall_mem_singleton.mpr ?_
      split
      · exact hasArgument_some _ _
      · exact hasArgument_unrecognized hunrecognized
    · split
      · simp
      · next hnone =>
        refine List.forall_mem_singleton.mpr fun hrequired => ?_
        rw [hlong l (mem_of_longOption hl), Option.some.injEq] at hrequired
        exact absurd hrequired hnone

theorem scan_hasArgument (posixlyCorrect : Bool) (pending : Option Byte) (words : List Bytes) :
    ∀ r ∈ (o.scan posixlyCorrect pending words).1, o.HasArgument r := by
  induction words generalizing pending with
  | nil =>
    cases pending with
    | none => simp [scan]
    | some c => exact List.forall_mem_singleton.mpr (hasArgument_unrecognized hunrecognized)
  | cons word rest ih =>
    cases pending with
    | some c => exact List.forall_mem_cons.mpr ⟨hasArgument_some c word, ih none⟩
    | none =>
      unfold scan
      split
      · simp
      · split
        · have hfirst : ∀ r ∈ (o.optionWord word).1, o.HasArgument r := by
            unfold optionWord
            split
            · exact longWord_hasArgument hunrecognized hlong _
            · exact cluster_hasArgument hunrecognized _
          exact List.forall_mem_append.mpr ⟨hfirst, ih _⟩
        · split
          · simp
          · exact ih none

theorem getoptLong_hasArgument (posixlyCorrect : Bool) (argv : List Bytes) :
    ∀ r ∈ (o.getoptLong posixlyCorrect argv).1, o.HasArgument r :=
  scan_hasArgument hunrecognized hlong posixlyCorrect none argv.tail

end Results
end Options
end Getopt
