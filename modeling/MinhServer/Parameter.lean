import MinhServer.Http.Request
import MinhServer.Library.Getopt
import MinhServer.Library.Inet

/-!
# The command line

`parseCommandParaments` and the check at its end. Which argument vectors it accepts, with which
configuration. Allocations succeed.
-/

namespace MinhServer
open CString Getopt

structure Parament where
  host : Option Bytes := none
  port : Int := 0
  mode : Bytes
  deriving DecidableEq, Repr

/-- What is printed on `stderr`. -/
inductive Message where
  | usage
  | invalidPort (text : Bytes)
  | invalidParameters (words : List Bytes)
  | badHost (host : Option Bytes)
  deriving DecidableEq, Repr

/-- The configuration so far, and the messages. -/
structure Parsing where
  config : Parament
  messages : List Message
  deriving DecidableEq, Repr

def Parsing.print (p : Parsing) (m : Message) : Parsing := { p with messages := p.messages ++ [m] }

/-- `inet_pton` reads the text of the host, which may be missing. -/
def validateArgs (config : Parament) : Except Fault Int :=
  match config.host with
  | none => .error .badPointer
  | some host =>
    if Inet.inetPton host then .ok 0
    else if host = ascii "127.0.0.1" then .ok 0
    else if host = ascii "localhost" then .ok 0
    else .ok (-1)

/-- `"hp:a:m:"` and `longopts`. -/
def commandOptions : Options where
  short := ascii "hp:a:m:"
  long := [⟨ascii "help", false, 104⟩, ⟨ascii "port", true, 112⟩, ⟨ascii "address", true, 97⟩,
    ⟨ascii "mode", true, 109⟩]

/-- The number of a port is stored, in range or not. -/
def Parsing.takePort (p : Parsing) (text : Bytes) : Parsing :=
  let (port, endptr) := strtol text
  let p := if endptr ≠ [] ∨ port ≤ 0 ∨ 65535 < port then p.print (.invalidPort text) else p
  { p with config := { p.config with port := int32 port } }

/-- One round of the option loop: the options `p`, `a` and `m`, and all others. -/
def takeOption (p : Parsing) (r : Result) : Except Fault Parsing :=
  if r.ch = 112 then
    match r.optarg with
    | none => .error .badPointer
    | some text => .ok (p.takePort text)
  else if r.ch = 97 then
    match r.optarg with
    | none => .error .badPointer
    | some host => .ok { p with config := { p.config with host := some host } }
  else if r.ch = 109 then
    match r.optarg with
    | none => .error .badPointer
    | some mode => .ok { p with config := { p.config with mode := mode } }
  else .ok (p.print .usage)

def parseCommandParaments (posixlyCorrect : Bool) (argv : List Bytes) :
    Except Fault (Int × Parsing) :=
  let config : Parament := { mode := ascii "blocking" }
  if argv.length = 1 then
    .ok (0, ⟨{ config with host := some (ascii "0.0.0.0"), port := 9527 }, []⟩)
  else do
    let (results, operands) := commandOptions.getoptLong posixlyCorrect argv
    let p ← results.foldlM takeOption ⟨config, []⟩
    let p := if operands = [] then p else p.print (.invalidParameters operands)
    if (← validateArgs p.config) ≠ 0 then
      .ok (-1, (p.print (.badHost p.config.host)).print .usage)
    else .ok (0, p)

/-- The configuration that `main` starts the server with. -/
def main (posixlyCorrect : Bool) (argv : List Bytes) : Except Fault (Option Parament) := do
  let (result, p) ← parseCommandParaments posixlyCorrect argv
  .ok (if result ≠ 0 then none else some p.config)

/-- The argument of the last option `ch`. -/
def lastArgument (ch : Byte) (results : List Result) : Option Bytes :=
  (results.filterMap fun r => if r.ch = ch then r.optarg else none).getLast?

/-- The configuration that the option loop leaves. -/
def configOf (results : List Result) : Parament where
  host := lastArgument 97 results
  port := (lastArgument 112 results).elim 0 fun text => int32 (strtol text).1
  mode := (lastArgument 109 results).getD (ascii "blocking")

section Loop
variable {p : Parsing} {r : Result} {results : List Result} {ch : Byte}

theorem lastArgument_append_of_ne (h : r.ch ≠ ch) :
    lastArgument ch (results ++ [r]) = lastArgument ch results := by
  simp [lastArgument, h]

theorem lastArgument_append {arg : Bytes} (h : r.ch = ch) (harg : r.optarg = some arg) :
    lastArgument ch (results ++ [r]) = some arg := by
  simp [lastArgument, h, harg]

theorem takePort_config (p : Parsing) (text : Bytes) :
    (p.takePort text).config = { p.config with port := int32 (strtol text).1 } := by
  unfold Parsing.takePort
  generalize strtol text = number
  dsimp only
  split <;> rfl

theorem takeOption_configOf (hp : p.config = configOf results) (hr : commandOptions.HasArgument r) :
    ∃ q, takeOption p r = .ok q ∧ q.config = configOf (results ++ [r]) := by
  have hrequired : ∀ c ∈ ascii "pam", commandOptions.shortOption c = some true := by decide +kernel
  have harg : ∀ c ∈ ascii "pam", r.ch = c → ∃ arg, r.optarg = some arg := fun c hc heq =>
    Option.isSome_iff_exists.mp (hr (heq ▸ hrequired c hc))
  unfold takeOption
  by_cases hport : r.ch = 112
  · obtain ⟨text, htext⟩ := harg 112 (by decide +kernel) hport
    rw [if_pos hport, htext]
    refine ⟨_, rfl, ?_⟩
    rw [takePort_config, configOf, lastArgument_append hport htext,
      lastArgument_append_of_ne (by simp [hport]), lastArgument_append_of_ne (by simp [hport]), hp]
    rfl
  rw [if_neg hport]
  by_cases hhost : r.ch = 97
  · obtain ⟨host, hhost'⟩ := harg 97 (by decide +kernel) hhost
    rw [if_pos hhost, hhost']
    refine ⟨_, rfl, ?_⟩
    rw [configOf, lastArgument_append hhost hhost', lastArgument_append_of_ne hport,
      lastArgument_append_of_ne (by simp [hhost]), hp]
    rfl
  rw [if_neg hhost]
  by_cases hmode : r.ch = 109
  · obtain ⟨mode, hmode'⟩ := harg 109 (by decide +kernel) hmode
    rw [if_pos hmode, hmode']
    refine ⟨_, rfl, ?_⟩
    rw [configOf, lastArgument_append hmode hmode', lastArgument_append_of_ne hport,
      lastArgument_append_of_ne hhost, hp]
    rfl
  · rw [if_neg hmode]
    refine ⟨_, rfl, ?_⟩
    rw [configOf, lastArgument_append_of_ne hport, lastArgument_append_of_ne hhost,
      lastArgument_append_of_ne hmode]
    exact hp

theorem foldlM_takeOption (hresults : ∀ r ∈ results, commandOptions.HasArgument r) :
    ∃ q, results.foldlM takeOption ⟨{ mode := ascii "blocking" }, []⟩ = .ok q ∧
      q.config = configOf results := by
  induction results using List.reverseRecOn with
  | nil => exact ⟨_, rfl, rfl⟩
  | append_singleton results r ih =>
    rw [List.forall_mem_append, List.forall_mem_singleton] at hresults
    obtain ⟨p, hloop, hp⟩ := ih hresults.1
    obtain ⟨q, hround, hq⟩ := takeOption_configOf hp hresults.2
    refine ⟨q, ?_, hq⟩
    rw [List.foldlM_append, hloop]
    simp only [Bind.bind, Except.bind, List.foldlM_cons, List.foldlM_nil, hround]
    rfl

end Loop

/-- An IPv4 address or `localhost`. -/
def IsHost (host : Bytes) : Prop := Inet.IsAddress host ∨ host = ascii "localhost"

def IsPort (text : Bytes) : Prop := ∃ port, strtol text = (port, []) ∧ 1 ≤ port ∧ port ≤ 65535

def IsMode (mode : Bytes) : Prop :=
  sameNoCase mode (ascii "blocking") ∨ sameNoCase mode (ascii "select")

section Accepted
variable (posixlyCorrect : Bool) (argv : List Bytes)

/-- The argument of the last option `ch` on the command line. -/
def givenArgument (ch : Byte) : Option Bytes :=
  lastArgument ch (commandOptions.getoptLong posixlyCorrect argv).1

/-- Host, port and mode are valid, and they are the values of the last options, or the defaults. -/
structure ValidConfig (config : Parament) : Prop where
  host : ∃ host, config.host = some host ∧ IsHost host ∧
    if argv.length = 1 then host = ascii "0.0.0.0"
    else givenArgument posixlyCorrect argv 97 = some host
  port : (1 ≤ config.port ∧ config.port ≤ 65535) ∧
    if argv.length = 1 then config.port = 9527
    else ∃ text, givenArgument posixlyCorrect argv 112 = some text ∧
      strtol text = (config.port, [])
  mode : IsMode config.mode ∧
    config.mode = (givenArgument posixlyCorrect argv 109).getD (ascii "blocking")

/-- The call returns: 0 with a valid configuration, or -1, and then the server is not started. -/
def AcceptsOnlyValid : Prop :=
  ∃ result p, parseCommandParaments posixlyCorrect argv = .ok (result, p) ∧
    (result = 0 ∧ ValidConfig posixlyCorrect argv p.config ∨
      result = -1 ∧ main posixlyCorrect argv = .ok none)

end Accepted

section Parse
variable {posixlyCorrect : Bool} {argv : List Bytes} {config : Parament} {host : Bytes}

theorem validateArgs_eq (hhost : config.host = some host) :
    validateArgs config = .ok 0 ∧ IsHost host ∨ validateArgs config = .ok (-1) ∧ ¬ IsHost host := by
  have hquad : Inet.inetPton (ascii "127.0.0.1") = true := by decide +kernel
  unfold validateArgs IsHost
  rw [hhost, ← Inet.inetPton_iff]
  dsimp only
  by_cases haddress : Inet.inetPton host = true
  · rw [if_pos haddress]
    exact .inl ⟨rfl, .inl haddress⟩
  · have hother : host ≠ ascii "127.0.0.1" := fun heq => haddress (heq ▸ hquad)
    rw [if_neg haddress, if_neg hother]
    by_cases hlocal : host = ascii "localhost"
    · rw [if_pos hlocal]
      exact .inl ⟨rfl, .inr hlocal⟩
    · rw [if_neg hlocal]
      exact .inr ⟨rfl, fun h => h.elim haddress hlocal⟩

theorem parse_options (posixlyCorrect : Bool) (hargs : argv.length ≠ 1) : ∃ p : Parsing,
    p.config = configOf (commandOptions.getoptLong posixlyCorrect argv).1 ∧
      parseCommandParaments posixlyCorrect argv =
        (validateArgs p.config).bind fun valid =>
          if valid ≠ 0 then .ok (-1, (p.print (.badHost p.config.host)).print .usage)
          else .ok (0, p) := by
  have hunrecognized : commandOptions.shortOption 63 = none := by decide +kernel
  have hconsistent : ∀ l ∈ commandOptions.long,
      commandOptions.shortOption l.val = some l.hasArg := by decide +kernel
  obtain ⟨p, hloop, hp⟩ := foldlM_takeOption
    (Options.getoptLong_hasArgument hunrecognized hconsistent posixlyCorrect argv)
  let operands := (commandOptions.getoptLong posixlyCorrect argv).2
  refine ⟨if operands = [] then p else p.print (.invalidParameters operands), ?_, ?_⟩
  · split
    · exact hp
    · exact hp
  · unfold parseCommandParaments
    rw [if_neg hargs]
    simp only [Bind.bind, Except.bind, hloop]
    rfl

theorem port_valid_iff {results : List Result} :
    ((1 ≤ (configOf results).port ∧ (configOf results).port ≤ 65535) ∧
        ∃ text, lastArgument 112 results = some text ∧
          strtol text = ((configOf results).port, [])) ↔
      ∃ text, lastArgument 112 results = some text ∧ IsPort text := by
  constructor
  · rintro ⟨⟨hlow, hhigh⟩, text, htext, hnumber⟩
    exact ⟨text, htext, _, hnumber, hlow, hhigh⟩
  · rintro ⟨text, htext, port, hnumber, hlow, hhigh⟩
    have hport : (configOf results).port = port := by
      change (lastArgument 112 results).elim 0 (fun text => int32 (strtol text).1) = port
      rw [htext, Option.elim_some, hnumber]
      lift port to ℕ using by omega
      exact int32_eq_self (by omega)
    rw [hport]
    exact ⟨⟨hlow, hhigh⟩, text, htext, hnumber⟩

theorem mode_valid_iff {results : List Result} : IsMode (configOf results).mode ↔
    ∀ mode, lastArgument 109 results = some mode → IsMode mode := by
  change IsMode ((lastArgument 109 results).getD (ascii "blocking")) ↔ _
  cases lastArgument 109 results with
  | none =>
    have hblocking : IsMode (ascii "blocking") := .inl (by decide +kernel)
    simp [hblocking]
  | some mode => simp

theorem validConfig_iff (hargs : argv.length ≠ 1)
    (hhost : givenArgument posixlyCorrect argv 97 = some host) (hvalid : IsHost host) :
    ValidConfig posixlyCorrect argv (configOf (commandOptions.getoptLong posixlyCorrect argv).1) ↔
      (∃ text, givenArgument posixlyCorrect argv 112 = some text ∧ IsPort text) ∧
        ∀ mode, givenArgument posixlyCorrect argv 109 = some mode → IsMode mode := by
  constructor
  · rintro ⟨-, hport, hmode, -⟩
    rw [if_neg hargs] at hport
    exact ⟨port_valid_iff.mp hport, mode_valid_iff.mp hmode⟩
  · rintro ⟨hport, hmode⟩
    refine ⟨⟨host, hhost, hvalid, ?_⟩, ?_, mode_valid_iff.mpr hmode, rfl⟩
    · rw [if_neg hargs]
      exact hhost
    · rw [if_neg hargs]
      exact port_valid_iff.mpr hport

theorem validConfig_default (hargs : argv.length = 1) : ValidConfig posixlyCorrect argv
    { host := some (ascii "0.0.0.0"), port := 9527, mode := ascii "blocking" } := by
  obtain ⟨program, rfl⟩ := List.length_eq_one_iff.mp hargs
  have haddress : Inet.IsAddress (ascii "0.0.0.0") := ⟨0, 0, 0, 0, by decide +kernel⟩
  exact ⟨⟨_, rfl, .inl haddress, rfl⟩, ⟨⟨by decide, by decide⟩, rfl⟩,
    .inl (by decide +kernel), rfl⟩

theorem not_acceptsOnlyValid (hargs : argv.length ≠ 1)
    (hhost : givenArgument posixlyCorrect argv 97 = none) :
    ¬ AcceptsOnlyValid posixlyCorrect argv := by
  obtain ⟨p, hp, hparse⟩ := parse_options posixlyCorrect hargs
  have hmissing : p.config.host = none := by
    rw [hp]
    exact hhost
  rw [validateArgs, hmissing] at hparse
  rintro ⟨result, q, hq, -⟩
  rw [hparse] at hq
  cases hq

theorem acceptsOnlyValid_host (hargs : argv.length ≠ 1)
    (hhost : givenArgument posixlyCorrect argv 97 = some host) :
    AcceptsOnlyValid posixlyCorrect argv ↔ (IsHost host →
      ValidConfig posixlyCorrect argv
        (configOf (commandOptions.getoptLong posixlyCorrect argv).1)) := by
  obtain ⟨p, hp, hparse⟩ := parse_options posixlyCorrect hargs
  have hgiven : p.config.host = some host := by
    rw [hp]
    exact hhost
  rw [← hp]
  rcases validateArgs_eq hgiven with ⟨hcheck, hvalid⟩ | ⟨hcheck, hinvalid⟩
  · have haccepted : parseCommandParaments posixlyCorrect argv = .ok (0, p) := by
      rw [hparse, hcheck]
      rfl
    constructor
    · rintro ⟨result, q, hq, hresult⟩ -
      rw [haccepted] at hq
      cases hq
      rcases hresult with ⟨-, hconfig⟩ | ⟨hrejected, -⟩
      · exact hconfig
      · cases hrejected
    · exact fun hconfig => ⟨0, p, haccepted, .inl ⟨rfl, hconfig hvalid⟩⟩
  · have hrejected : parseCommandParaments posixlyCorrect argv =
        .ok (-1, (p.print (.badHost p.config.host)).print .usage) := by
      rw [hparse, hcheck]
      rfl
    refine iff_of_true ⟨-1, _, hrejected, .inr ⟨rfl, ?_⟩⟩ fun hvalid => absurd hvalid hinvalid
    unfold main
    rw [hrejected]
    rfl

end Parse

/-- Only valid configurations are accepted if and only if nothing is given, or the last host given
is not valid, or it is, the last port given is a port from 1 to 65535, and the last mode, if one
is given, is `blocking` or `select`. In particular the call returns if and only if a host is given
or nothing at all. -/
theorem acceptsOnlyValid_iff (posixlyCorrect : Bool) (argv : List Bytes) :
    AcceptsOnlyValid posixlyCorrect argv ↔ argv.length = 1 ∨
      ∃ host, givenArgument posixlyCorrect argv 97 = some host ∧
        (IsHost host →
          (∃ text, givenArgument posixlyCorrect argv 112 = some text ∧ IsPort text) ∧
          ∀ mode, givenArgument posixlyCorrect argv 109 = some mode → IsMode mode) := by
  by_cases hargs : argv.length = 1
  · refine iff_of_true ⟨0, _, if_pos hargs, .inl ⟨rfl, validConfig_default hargs⟩⟩ (.inl hargs)
  · rw [or_iff_right hargs]
    cases hhost : givenArgument posixlyCorrect argv 97 with
    | none => simp [not_acceptsOnlyValid hargs hhost]
    | some host =>
      rw [acceptsOnlyValid_host hargs hhost]
      constructor
      · exact fun h => ⟨host, rfl, fun hvalid => (validConfig_iff hargs hhost hvalid).mp (h hvalid)⟩
      · rintro ⟨host', heq, h⟩ hvalid
        obtain rfl := Option.some.inj heq
        exact (validConfig_iff hargs hhost hvalid).mpr (h hvalid)

/-- A port out of range is reported and then accepted. -/
theorem accepts_large_port : ¬ ∀ posixlyCorrect argv, AcceptsOnlyValid posixlyCorrect argv := by
  intro h
  let argv : List Bytes :=
    [ascii "./minh", ascii "-a", ascii "127.0.0.1", ascii "-p", ascii "99999"]
  have hparse : (parseCommandParaments false argv).map (fun r => (r.1, r.2.config.port)) =
      .ok (0, 99999) := by
    decide +kernel
  obtain ⟨⟨result, p⟩, hp, hresult⟩ := map_eq_ok.mp hparse
  obtain ⟨result', p', hp', hvalid⟩ := h false argv
  rw [hp] at hp'
  cases hp'
  simp only [Prod.mk.injEq] at hresult
  rcases hvalid with ⟨-, hconfig⟩ | ⟨hrejected, -⟩
  · have := hconfig.port.1.2
    omega
  · omega

end MinhServer
