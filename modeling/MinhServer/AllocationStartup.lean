import MinhServer.Allocation
import MinhServer.Startup

namespace MinhServer.Allocating
open CString Getopt

/-- The blocks of `config->host` and `config->mode`, or null. -/
structure ConfigBlocks where
  host : Option Nat
  mode : Option Nat

def freeText (text : Option Nat) (h : Heap) : Except Crash Heap :=
  match text with
  | none => .ok h
  | some block => free block h

/-- One round of the option loop; the option's argument is copied after the old text is freed. -/
def takeOption : Parsing × ConfigBlocks × Heap → Result →
    Except Crash (Parsing × ConfigBlocks × Heap)
  | (p, blocks, h), r =>
    if r.ch = 97 then do
      let h ← freeText blocks.host h
      let p ← plain (MinhServer.takeOption p r)
      let (host, h) := h.malloc
      .ok (p, { blocks with host := some host }, h)
    else if r.ch = 109 then do
      let h ← freeText blocks.mode h
      let p ← plain (MinhServer.takeOption p r)
      let (mode, h) := h.malloc
      .ok (p, { blocks with mode := some mode }, h)
    else do
      let p ← plain (MinhServer.takeOption p r)
      .ok (p, blocks, h)

def parseCommandParaments (posixlyCorrect : Bool) (argv : List Bytes) (h : Heap) :
    Except Crash (Int × Parsing × ConfigBlocks × Heap) :=
  let config : Parament := { mode := ascii "blocking" }
  let (mode, h) := h.malloc
  if argv.length = 1 then
    let (host, h) := h.malloc
    .ok (0, ⟨{ config with host := some (ascii "0.0.0.0"), port := 9527 }, []⟩,
      ⟨some host, some mode⟩, h)
  else do
    let (results, operands) := commandOptions.getoptLong posixlyCorrect argv
    let (p, blocks, h) ← results.foldlM takeOption (⟨config, []⟩, ⟨none, some mode⟩, h)
    let p := if operands = [] then p else p.print (.invalidParameters operands)
    let valid ← plain (validateArgs p.config)
    if valid ≠ 0 then
      .ok (-1, (p.print (.badHost p.config.host)).print .usage, blocks, h)
    else .ok (0, p, blocks, h)

/-- The list of the addresses is one block, which `getaddrinfo` allocates. -/
def initServer (config : Parament) (net : Network) (s : SelectState) (h : Heap) :
    Except Crash (Int × SelectState × Heap) :=
  let (portPtr, h) := h.malloc
  match net.getaddrinfo config.host (portText config.port) with
  | none => do
    let h ← free portPtr h
    .ok (-1, s, h)
  | some addresses => do
    let (res, h) := h.malloc
    let (sockfd, w) := bindFirst addresses s.worker
    let h ← free res h
    let h ← free portPtr h
    match sockfd with
    | none => .ok (-1, s.withWorker w, h)
    | some sockfd => do
      let (code, s) ← plain
        (initSocket config.mode ⟨some sockfd, net.nonblocking, net.listens⟩ (s.withWorker w))
      .ok (code, s, h)

def deinitServer (blocks : ConfigBlocks) (h : Heap) : Except Crash Heap := do
  let h ← freeText blocks.host h
  freeText blocks.mode h

/-- The server that `main` has started when it comes to `deinitServer`, or none. In between the
master process allocates nothing. -/
def main (posixlyCorrect : Bool) (argv : List Bytes) (net : Network) (s : SelectState) (h : Heap) :
    Except Crash (Option SelectState × Heap) := do
  let (result, p, blocks, h) ← parseCommandParaments posixlyCorrect argv h
  if result ≠ 0 then .ok (none, h)
  else do
    let (code, s, h) ← initServer p.config net s h
    if code ≠ 0 then .ok (none, h)
    else do
      let h ← deinitServer blocks h
      .ok (some s, h)

def startServer (posixlyCorrect : Bool) (argv : List Bytes) (net : Network) (s : SelectState) :
    Except Fault (Option SelectState) := do
  match ← MinhServer.main posixlyCorrect argv with
  | none => .ok none
  | some config => do
    let (code, s) ← MinhServer.initServer config net s
    .ok (if code ≠ 0 then none else some s)

/-- The process holds these texts, and nothing was left behind. -/
structure Owns (h₀ : Heap) (config : Parament) (blocks : ConfigBlocks) (h : Heap) : Prop where
  holds : h₀.Holds (blocks.host.toFinset ∪ blocks.mode.toFinset) 0 h
  apart : Disjoint blocks.host.toFinset blocks.mode.toFinset
  host : blocks.host.isSome = config.host.isSome
  mode : blocks.mode.isSome

section Texts
variable {h₀ h h' : Heap} {text : Option Nat} {others : Finset Nat} {n : Nat}

theorem freeText_holds (hs : h₀.Holds (text.toFinset ∪ others) n h)
    (hapart : Disjoint text.toFinset others) :
    ∃ h', freeText text h = .ok h' ∧ h₀.Holds others n h' := by
  cases text with
  | none =>
    rw [Option.toFinset_none, Finset.empty_union] at hs
    exact ⟨h, rfl, hs⟩
  | some block =>
    rw [Option.toFinset_some, Finset.disjoint_singleton_left] at hapart
    rw [Option.toFinset_some, ← Finset.insert_eq] at hs
    obtain ⟨freed, hfree, hrest⟩ := hs.free (Finset.mem_insert_self block others)
    rw [Finset.erase_insert hapart] at hrest
    exact ⟨freed, by rw [freeText, free, hfree], hrest⟩

variable {config : Parament} {blocks : ConfigBlocks}

theorem Owns.replaceHost (hs : Owns h₀ config blocks h) (host : Bytes) :
    ∃ h', freeText blocks.host h = .ok h' ∧
      Owns h₀ { config with host := some host } { blocks with host := some h'.malloc.1 }
        h'.malloc.2 := by
  obtain ⟨h', hfree, hrest⟩ := freeText_holds hs.holds hs.apart
  have hnew : h'.malloc.1 ∉ blocks.mode.toFinset := hrest.malloc_notMem
  refine ⟨h', hfree, ?_, Finset.disjoint_singleton_left.mpr hnew, rfl, hs.mode⟩
  exact Finset.insert_eq h'.malloc.1 blocks.mode.toFinset ▸ hrest.malloc

theorem Owns.replaceMode (hs : Owns h₀ config blocks h) (mode : Bytes) :
    ∃ h', freeText blocks.mode h = .ok h' ∧
      Owns h₀ { config with mode := mode } { blocks with mode := some h'.malloc.1 }
        h'.malloc.2 := by
  have hholds := hs.holds
  rw [Finset.union_comm] at hholds
  obtain ⟨h', hfree, hrest⟩ := freeText_holds hholds hs.apart.symm
  have hnew : h'.malloc.1 ∉ blocks.host.toFinset := hrest.malloc_notMem
  refine ⟨h', hfree, ?_, Finset.disjoint_singleton_right.mpr hnew, hs.host, rfl⟩
  have hboth := hrest.malloc
  rw [Finset.insert_eq, Finset.union_comm] at hboth
  exact hboth

theorem Owns.later (hs : Owns h₀ config blocks h) (hs' : h.Holds ∅ 0 h') :
    Owns h₀ config blocks h' :=
  ⟨hs.holds.later hs', hs.apart, hs.host, hs.mode⟩

/-- Both texts are freed in the end. -/
theorem Owns.deinitServer (hs : Owns h₀ config blocks h) :
    ∃ h', deinitServer blocks h = .ok h' ∧ h'.live = h₀.live := by
  obtain ⟨h₁, hhost, hrest⟩ := freeText_holds hs.holds hs.apart
  rw [← Finset.union_empty blocks.mode.toFinset] at hrest
  obtain ⟨h₂, hmode, hdone⟩ := freeText_holds hrest (Finset.disjoint_empty_right _)
  refine ⟨h₂, ?_, hdone.live_eq⟩
  rw [Allocating.deinitServer, hhost]
  exact hmode

/-- With a host there are two blocks. -/
theorem Owns.card (hs : Owns h₀ config blocks h) (hhost : config.host.isSome) :
    h.live.card = h₀.live.card + 2 := by
  obtain ⟨host, hhost'⟩ := Option.isSome_iff_exists.mp (hs.host.trans hhost)
  obtain ⟨mode, hmode⟩ := Option.isSome_iff_exists.mp hs.mode
  have hcard := hs.holds.card
  rw [Finset.card_union_of_disjoint hs.apart, hhost', hmode] at hcard
  exact hcard

end Texts

section Options
variable {h₀ h : Heap} {blocks : ConfigBlocks} {p : Parsing} {results : List Result}

theorem takeOption_mirrors (hs : Owns h₀ p.config blocks h) (r : Result) :
    Mirrors Crash.fault
      (fun q result => result.1 = q ∧ Owns h₀ q.config result.2.1 result.2.2)
      (MinhServer.takeOption p r) (takeOption (p, blocks, h) r) := by
  unfold takeOption
  dsimp only
  by_cases hhost : r.ch = 97
  · have hport : r.ch ≠ 112 := by simp [hhost]
    rw [if_pos hhost, MinhServer.takeOption, if_neg hport, if_pos hhost]
    cases r.optarg with
    | none =>
      obtain ⟨h', hfree, -⟩ := hs.replaceHost []
      rw [hfree]
      exact .error _
    | some host =>
      obtain ⟨h', hfree, hs'⟩ := hs.replaceHost host
      rw [hfree]
      exact .ok ⟨rfl, hs'⟩
  rw [if_neg hhost]
  by_cases hmode : r.ch = 109
  · have hport : r.ch ≠ 112 := by simp [hmode]
    rw [if_pos hmode, MinhServer.takeOption, if_neg hport, if_neg hhost, if_pos hmode]
    cases r.optarg with
    | none =>
      obtain ⟨h', hfree, -⟩ := hs.replaceMode []
      rw [hfree]
      exact .error _
    | some mode =>
      obtain ⟨h', hfree, hs'⟩ := hs.replaceMode mode
      rw [hfree]
      exact .ok ⟨rfl, hs'⟩
  rw [if_neg hmode]
  refine (plain_mirrors (MinhServer.takeOption p r)).with_eq.bind_right ?_
  rintro q _ ⟨hround, rfl⟩
  have hsame : q.config.host = p.config.host := by
    rw [MinhServer.takeOption, if_neg hhost, if_neg hmode] at hround
    split at hround
    · split at hround
      · cases hround
      · cases hround
        rw [takePort_config]
    · cases hround
      rfl
  exact .ok ⟨rfl, hs.holds, hs.apart, hsame ▸ hs.host, hs.mode⟩

theorem options_mirror (hs : Owns h₀ p.config blocks h) :
    Mirrors Crash.fault
      (fun q result => result.1 = q ∧ Owns h₀ q.config result.2.1 result.2.2)
      (results.foldlM MinhServer.takeOption p) (results.foldlM takeOption (p, blocks, h)) := by
  refine Mirrors.foldlM ?_ ⟨rfl, hs⟩ results
  rintro q ⟨_, blocks, h⟩ r ⟨rfl, hs⟩
  exact takeOption_mirrors hs r

theorem validateArgs_host {config : Parament} {valid : Int} (h : validateArgs config = .ok valid) :
    config.host.isSome := by
  unfold validateArgs at h
  split at h
  · cases h
  · next hhost =>
    rw [hhost]
    rfl

/-- After the command line the process holds the texts of the configuration, whatever options were
given and how often. -/
theorem parse_mirrors (posixlyCorrect : Bool) (argv : List Bytes) (h : Heap) :
    Mirrors Crash.fault
      (fun parsed result => (result.1, result.2.1) = parsed ∧ parsed.2.config.host.isSome ∧
        Owns h parsed.2.config result.2.2.1 result.2.2.2)
      (MinhServer.parseCommandParaments posixlyCorrect argv)
      (parseCommandParaments posixlyCorrect argv h) := by
  have hmode : h.Holds {h.malloc.1} 0 h.malloc.2 := (Heap.Holds.refl h).malloc
  unfold MinhServer.parseCommandParaments parseCommandParaments
  dsimp only
  split
  · have hnew : h.malloc.2.malloc.1 ∉ ({h.malloc.1} : Finset Nat) := hmode.malloc_notMem
    refine .ok ⟨rfl, rfl, ?_, Finset.disjoint_singleton.mpr ?_, rfl, rfl⟩
    · exact hmode.malloc
    · exact fun heq => hnew (Finset.mem_singleton.mpr heq)
  · have hstart : Owns h { mode := ascii "blocking" } ⟨none, some h.malloc.1⟩ h.malloc.2 := by
      refine ⟨?_, Finset.disjoint_empty_left _, rfl, rfl⟩
      exact (Finset.empty_union ({h.malloc.1} : Finset Nat)).symm ▸ hmode
    refine (@options_mirror h h.malloc.2 ⟨none, some h.malloc.1⟩
      ⟨{ mode := ascii "blocking" }, []⟩ _ hstart).bind ?_
    rintro _ ⟨q, blocks, h'⟩ ⟨rfl, hs⟩
    dsimp only
    generalize (commandOptions.getoptLong posixlyCorrect argv).2 = operands
    have hconfig : (if operands = [] then q
        else q.print (.invalidParameters operands)).config = q.config := by
      split <;> rfl
    generalize (if operands = [] then q else q.print (.invalidParameters operands)) = p at hconfig
    rw [← hconfig] at hs
    refine (plain_mirrors (validateArgs p.config)).with_eq.bind ?_
    rintro valid _ ⟨hvalid, rfl⟩
    have hhost := validateArgs_host hvalid
    split
    · exact .ok ⟨rfl, hhost, hs⟩
    · exact .ok ⟨rfl, hhost, hs⟩

end Options

section Server
variable {config : Parament} {net : Network} {s : SelectState}

theorem initServer_mirrors (h : Heap) :
    Mirrors Crash.fault
      (fun started result => (result.1, result.2.1) = started ∧ h.Holds ∅ 0 result.2.2)
      (MinhServer.initServer config net s) (initServer config net s h) := by
  have hport : h.Holds {h.malloc.1} 0 h.malloc.2 := (Heap.Holds.refl h).malloc
  unfold MinhServer.initServer initServer
  dsimp only
  cases net.getaddrinfo config.host (portText config.port) with
  | none =>
    obtain ⟨h₁, hfree, hdone⟩ := free_only hport
    rw [hfree]
    exact .ok ⟨rfl, hdone⟩
  | some addresses =>
    have hres : h.malloc.2.Holds {h.malloc.2.malloc.1} 0 h.malloc.2.malloc.2 :=
      (Heap.Holds.refl _).malloc
    obtain ⟨h₁, hfreeaddrinfo, hrest⟩ := free_only hres
    obtain ⟨h₂, hfree, hdone⟩ := free_only (hport.later hrest)
    dsimp only
    rw [hfreeaddrinfo, ok_bind, hfree, ok_bind]
    generalize bindFirst addresses s.worker = tried
    obtain ⟨sockfd, w⟩ := tried
    cases sockfd with
    | none => exact .ok ⟨rfl, hdone⟩
    | some fd =>
      refine (plain_mirrors (initSocket config.mode ⟨some fd, net.nonblocking, net.listens⟩
        (s.withWorker w))).bind_right ?_
      rintro started _ rfl
      exact .ok ⟨rfl, hdone⟩

theorem startServer_eq (posixlyCorrect : Bool) (argv : List Bytes) :
    startServer posixlyCorrect argv net s =
      (MinhServer.parseCommandParaments posixlyCorrect argv).bind fun parsed =>
        if parsed.1 ≠ 0 then .ok none
        else (MinhServer.initServer parsed.2.config net s).bind fun started =>
          .ok (if started.1 ≠ 0 then none else some started.2) := by
  unfold startServer MinhServer.main
  cases MinhServer.parseCommandParaments posixlyCorrect argv with
  | error fault => rfl
  | ok parsed =>
    simp only [Bind.bind, Except.bind]
    by_cases hresult : parsed.1 ≠ 0
    · rw [if_pos hresult, if_pos hresult]
    · rw [if_neg hresult, if_neg hresult]

end Server

/-- On every command line and every network `main` goes as without a heap and frees nothing that is
not allocated, also when options are given again. When the server was started, all that `main`
allocated is freed in the end; else the texts of the host and the mode are left. -/
theorem main_heap (posixlyCorrect : Bool) (argv : List Bytes) (net : Network) (s : SelectState)
    (h : Heap) :
    (∀ fault, startServer posixlyCorrect argv net s = .error fault →
      main posixlyCorrect argv net s h = .error (.fault fault)) ∧
    ∀ started, startServer posixlyCorrect argv net s = .ok started →
      ∃ h', main posixlyCorrect argv net s h = .ok (started, h') ∧
        (started.isSome → h'.live = h.live) ∧
        (started = none → h.live ⊆ h'.live ∧ h'.live.card = h.live.card + 2) := by
  have hmirrors : Mirrors Crash.fault
      (fun started result => result.1 = started ∧ (started.isSome → result.2.live = h.live) ∧
        (started = none → h.live ⊆ result.2.live ∧ result.2.live.card = h.live.card + 2))
      (startServer posixlyCorrect argv net s) (main posixlyCorrect argv net s h) := by
    rw [startServer_eq]
    unfold main
    refine (parse_mirrors posixlyCorrect argv h).bind ?_
    rintro _ ⟨result, p, blocks, h₁⟩ ⟨rfl, hhost, hs⟩
    dsimp only
    split
    · exact .ok ⟨rfl, Bool.noConfusion, fun _ => ⟨hs.holds.kept, hs.card hhost⟩⟩
    · refine (initServer_mirrors h₁).bind ?_
      rintro _ ⟨code, t, h₂⟩ ⟨rfl, hdone⟩
      have hs' := hs.later hdone
      dsimp only
      split
      · exact .ok ⟨rfl, Bool.noConfusion, fun _ => ⟨hs'.holds.kept, hs'.card hhost⟩⟩
      · obtain ⟨h₃, hdeinit, hlive⟩ := hs'.deinitServer
        rw [hdeinit]
        refine .ok ⟨rfl, fun _ => hlive, ?_⟩
        rintro ⟨⟩
  constructor
  · intro fault hfault
    rw [hfault] at hmirrors
    exact hmirrors.eq_error
  · intro started hstarted
    rw [hstarted] at hmirrors
    obtain ⟨⟨_, h'⟩, hmain, rfl, hsome, hnone⟩ := hmirrors.exists_ok
    exact ⟨h', hmain, hsome, hnone⟩

end MinhServer.Allocating
