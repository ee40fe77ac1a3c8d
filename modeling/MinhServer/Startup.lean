import MinhServer.Bookkeeping
import MinhServer.Library.Decimal
import MinhServer.Parameter

namespace MinhServer
open CString

/-- `"%hu"`, into six bytes. -/
def portText (port : Int) : Bytes := ascii (port % 2 ^ 16).toNat.repr

theorem length_portText (port : Int) : (portText port).length < 6 := by
  have hlow := Int.emod_lt_of_pos port (by decide : (0 : Int) < 2 ^ 16)
  have hdigits := length_repr_le (by decide) (by omega : (port % 2 ^ 16).toNat < 10 ^ 5)
  exact Nat.lt_succ_of_le hdigits

theorem strtol_portText (port : Int) : strtol (portText port) = (port % 2 ^ 16, []) := by
  have hpos := Int.emod_nonneg port (by decide : (2 : Int) ^ 16 ≠ 0)
  have hlow := Int.emod_lt_of_pos port (by decide : (0 : Int) < 2 ^ 16)
  have hend : EndsNumber [] := fun b hb => by cases hb
  have hread := strtol_repr (by omega : (port % 2 ^ 16).toNat < 2 ^ 63) hend
  rwa [List.append_nil, Int.toNat_of_nonneg hpos] at hread

theorem int32_emod (x : Int) : int32 x % 2 ^ 16 = x % 2 ^ 16 := by
  have hdvd : (2 ^ 16 : Int) ∣ ((2 ^ 32 : Nat) : Int) := ⟨2 ^ 16, rfl⟩
  have hmod := Int.emod_emod_of_dvd (int32 x) hdvd
  rw [← hmod, int32, Int.bmod_emod, Int.emod_emod_of_dvd x hdvd]

/-- The number of the last port on the command line; the default without arguments, and 0 when
no port is given. -/
def givenPort (posixlyCorrect : Bool) (argv : List Bytes) : Int :=
  if argv.length = 1 then 9527
  else ((givenArgument posixlyCorrect argv 112).map fun text => (strtol text).1).getD 0

theorem main_port {posixlyCorrect : Bool} {argv : List Bytes} {config : Parament}
    (h : main posixlyCorrect argv = .ok (some config)) :
    config.port % 2 ^ 16 = givenPort posixlyCorrect argv % 2 ^ 16 := by
  obtain ⟨⟨result, p⟩, hparse, hmain⟩ := bind_eq_ok.mp h
  have hconfig : p.config = config := by
    dsimp only at hmain
    split at hmain
    · cases hmain
    · cases hmain
      rfl
  by_cases hargs : argv.length = 1
  · rw [parseCommandParaments, if_pos hargs] at hparse
    cases hparse
    rw [givenPort, if_pos hargs, ← hconfig]
  · obtain ⟨q, hq, hparse'⟩ := parse_options posixlyCorrect hargs
    rw [hparse'] at hparse
    obtain ⟨valid, -, hresult⟩ := bind_eq_ok.mp hparse
    have hport : p.config.port = q.config.port := by
      split at hresult
      · cases hresult
        rfl
      · cases hresult
        rfl
    rw [← hconfig, hport, hq, givenPort, if_neg hargs]
    change (lastArgument 112 (commandOptions.getoptLong posixlyCorrect argv).1).elim 0
      (fun text => int32 (strtol text).1) % 2 ^ 16 = _
    rw [givenArgument]
    cases lastArgument 112 (commandOptions.getoptLong posixlyCorrect argv).1 with
    | none => rfl
    | some text => exact int32_emod _

/-- Whatever is on the command line: if the server is started, the service that `getaddrinfo` is
asked for is the number of the last port given, modulo 2¹⁶, and its text fits the buffer. -/
theorem service_names_port (posixlyCorrect : Bool) (argv : List Bytes) (config : Parament)
    (h : main posixlyCorrect argv = .ok (some config)) :
    (portText config.port).length < 6 ∧
      strtol (portText config.port) = (givenPort posixlyCorrect argv % 2 ^ 16, []) := by
  refine ⟨length_portText config.port, ?_⟩
  rw [strtol_portText, main_port h]

/-- A port out of range names another one. -/
theorem service_names_port_large : ∃ config,
    main false [ascii "./minh", ascii "-a", ascii "127.0.0.1", ascii "-p", ascii "99999"] =
        .ok (some config) ∧
      strtol (portText config.port) = (34463, []) := by
  let argv : List Bytes :=
    [ascii "./minh", ascii "-a", ascii "127.0.0.1", ascii "-p", ascii "99999"]
  have hmain : (main false argv).map Option.isSome = .ok true := by decide +kernel
  obtain ⟨result, hresult, hsome⟩ := map_eq_ok.mp hmain
  obtain ⟨config, rfl⟩ := Option.isSome_iff_exists.mp hsome
  have hport : givenPort false argv % 2 ^ 16 = 34463 := by decide +kernel
  obtain ⟨-, hread⟩ := service_names_port false argv config hresult
  rw [hport] at hread
  exact ⟨config, hresult, hread⟩

/-- What the calls for one address of the list come to. -/
structure Address where
  socket : Option Int
  setsockopt : Bool
  bind : Bool
  getprotobynumber : Bool

def Address.usable (p : Address) : Bool :=
  p.socket.isSome && p.setsockopt && p.bind && p.getprotobynumber

/-- The loop over the addresses: a socket that cannot be used is closed before the next one is
tried. -/
def bindFirst : List Address → Worker → Option Int × Worker
  | [], w => (none, w)
  | p :: rest, w =>
    match p.socket with
    | none => bindFirst rest w
    | some sockfd =>
      let w := { w with fds := insert sockfd w.fds }
      if p.setsockopt && p.bind && p.getprotobynumber then (some sockfd, w)
      else bindFirst rest (w.close sockfd)

/-- What the system says while the server is started. -/
structure Network where
  getaddrinfo : Option Bytes → Bytes → Option (List Address)
  nonblocking : Bool
  listens : Bool

/-- `initServer`, which is `initSocket` with the fields of the configuration. -/
def initServer (config : Parament) (net : Network) (s : SelectState) :
    Except Fault (Int × SelectState) :=
  match net.getaddrinfo config.host (portText config.port) with
  | none => .ok (-1, s)
  | some addresses =>
    match bindFirst addresses s.worker with
    | (none, w) => .ok (-1, s.withWorker w)
    | (some sockfd, w) =>
      initSocket config.mode ⟨some sockfd, net.nonblocking, net.listens⟩ (s.withWorker w)

section Addresses
variable {addresses : List Address} {w w' : Worker}

/-- No address can be used and nothing is left open, or the socket of the first that can be is. -/
theorem bindFirst_spec (hfresh : ∀ p ∈ addresses, ∀ fd ∈ p.socket, fd ∉ w.fds) :
    (addresses.find? Address.usable = none ∧ (bindFirst addresses w).1 = none ∧
        (bindFirst addresses w).2.fds = w.fds) ∨
      ∃ p fd, addresses.find? Address.usable = some p ∧ p.socket = some fd ∧
        (bindFirst addresses w).1 = some fd ∧ (bindFirst addresses w).2.fds = insert fd w.fds := by
  induction addresses generalizing w with
  | nil => exact .inl ⟨rfl, rfl, rfl⟩
  | cons p rest ih =>
    obtain ⟨hp, hrest⟩ := List.forall_mem_cons.mp hfresh
    cases hsocket : p.socket with
    | none =>
      have hunusable : p.usable = false := by
        rw [Address.usable, hsocket]
        rfl
      rw [bindFirst, hsocket, List.find?_cons_of_neg (by rw [hunusable]; exact Bool.false_ne_true)]
      exact ih hrest
    | some fd =>
      have hnew := hp fd hsocket
      have husable : p.usable = (p.setsockopt && p.bind && p.getprotobynumber) := by
        rw [Address.usable, hsocket, Option.isSome_some, Bool.true_and]
      rw [bindFirst, hsocket]
      dsimp only
      rw [← husable]
      by_cases huse : p.usable = true
      · rw [if_pos huse, List.find?_cons_of_pos huse]
        exact .inr ⟨p, fd, rfl, hsocket, rfl, rfl⟩
      · -- the next address finds the descriptors as this one did
        have hclosed : ({ w with fds := insert fd w.fds }.close fd).fds = w.fds :=
          Finset.erase_insert hnew
        have hspec := ih (w := { w with fds := insert fd w.fds }.close fd)
          (by rw [hclosed]; exact hrest)
        rw [hclosed] at hspec
        rw [if_neg huse, List.find?_cons_of_neg huse]
        exact hspec

end Addresses

/-- There is an address that can be used, and its socket can be put into the mode and listens. -/
def CanListen (config : Parament) (net : Network) : Prop :=
  (∃ addresses p, net.getaddrinfo config.host (portText config.port) = some addresses ∧
    addresses.find? Address.usable = some p) ∧
  (sameNoCase config.mode (ascii "select") = true → net.nonblocking = true) ∧ net.listens = true

section Server
variable {config : Parament} {net : Network} {s t : SelectState} {code : Int}

/-- From the bound socket on: it listens, or is closed. -/
theorem initSocket_bound {mode : Bytes} {fd : Int} {nonblocking listens : Bool}
    (h : initSocket mode ⟨some fd, nonblocking, listens⟩ s = .ok (code, t)) :
    (((sameNoCase mode (ascii "select") = true → nonblocking = true) ∧ listens = true) ∧
        code = 0 ∧ t.worker.fds = insert fd s.worker.fds) ∨
      (¬ ((sameNoCase mode (ascii "select") = true → nonblocking = true) ∧ listens = true) ∧
        code = -1 ∧ t.worker.fds = s.worker.fds.erase fd) := by
  unfold initSocket at h
  dsimp only at h
  split at h
  · next hblocking =>
    cases h
    refine .inr ⟨fun hboth => ?_, rfl, Finset.erase_insert_eq_erase _ _⟩
    rw [hboth.1 hblocking.1] at hblocking
    cases hblocking.2
  · next hmode =>
    have hlisten : ∃ server, (if listens = true then .ok (0, (s.open_ fd).withServer server)
        else .ok (-1, ((s.open_ fd).withServer server).close fd) :
          Except Fault (Int × SelectState)) = .ok (code, t) := by
      split at h
      · obtain ⟨server, -, h⟩ := bind_eq_ok.mp h
        exact ⟨server, h⟩
      · exact ⟨_, h⟩
    obtain ⟨server, h⟩ := hlisten
    have hnonblocking : sameNoCase mode (ascii "select") = true → nonblocking = true := by
      intro hselect
      by_contra hnot
      exact hmode ⟨hselect, Bool.eq_false_iff.mpr hnot⟩
    split at h
    · next hlistens =>
      cases h
      exact .inl ⟨⟨hnonblocking, hlistens⟩, rfl, rfl⟩
    · next hlistens =>
      cases h
      exact .inr ⟨fun hboth => hlistens hboth.2, rfl, Finset.erase_insert_eq_erase _ _⟩

/-- `initServer` returns 0 exactly when it can listen. Then one socket more is open than before,
that of the first address that can be used, and in select mode the loop can begin; otherwise -1 is
returned, and every socket that was tried is closed again. -/
theorem initServer_listens (h : initServer config net s = .ok (code, t))
    (hfresh : ∀ addresses, net.getaddrinfo config.host (portText config.port) = some addresses →
      ∀ p ∈ addresses, ∀ fd ∈ p.socket, fd ∉ s.worker.fds) (hevents : s.events = []) :
    (CanListen config net ∧ code = 0 ∧
        (∃ addresses p fd, net.getaddrinfo config.host (portText config.port) = some addresses ∧
          addresses.find? Address.usable = some p ∧ p.socket = some fd ∧
          t.worker.fds = insert fd s.worker.fds) ∧
        (sameNoCase config.mode (ascii "select") = true →
          ∀ homeDir, (selectLoop homeDir).init t)) ∨
      (¬ CanListen config net ∧ code = -1 ∧ t.worker.fds = s.worker.fds) := by
  unfold initServer at h
  cases hlookup : net.getaddrinfo config.host (portText config.port) with
  | none =>
    rw [hlookup] at h
    cases h
    refine .inr ⟨?_, rfl, rfl⟩
    rintro ⟨⟨addresses, p, hsome, -⟩, -⟩
    rw [hlookup] at hsome
    cases hsome
  | some addresses =>
    rw [hlookup] at h
    have hspec := bindFirst_spec (hfresh addresses hlookup)
    dsimp only at h
    rcases hspec with ⟨hnone, hbound, hfds⟩ | ⟨p, fd, hfound, hsocket, hbound, hfds⟩
    · generalize bindFirst addresses s.worker = tried at h hbound hfds
      obtain ⟨bound, w⟩ := tried
      cases hbound
      cases h
      refine .inr ⟨?_, rfl, hfds⟩
      rintro ⟨⟨addresses', p, hsome, hp⟩, -⟩
      rw [hlookup] at hsome
      cases hsome
      rw [hnone] at hp
      cases hp
    · generalize bindFirst addresses s.worker = tried at h hbound hfds
      obtain ⟨bound, w⟩ := tried
      cases hbound
      dsimp only at h hfds
      have hnew : fd ∉ s.worker.fds :=
        hfresh addresses hlookup p (List.mem_of_find?_eq_some hfound) fd hsocket
      rcases initSocket_bound h with ⟨⟨hmode, hlistens⟩, rfl, ht⟩ | ⟨hnot, rfl, ht⟩
      · refine .inl ⟨⟨⟨addresses, p, hlookup, hfound⟩, hmode, hlistens⟩, rfl, ?_, ?_⟩
        · refine ⟨addresses, p, fd, rfl, hfound, hsocket, ?_⟩
          rw [ht]
          exact (congrArg (insert fd) hfds).trans (Finset.insert_idem _ _)
        · exact fun hselect _ => ⟨config.mode, _, s.withWorker w, hselect, hevents, h⟩
      · refine .inr ⟨fun hcan => hnot hcan.2, rfl, ?_⟩
        rw [ht]
        exact (congrArg (Finset.erase · fd) hfds).trans (Finset.erase_insert hnew)

/-- Two addresses cannot be used, the third one is in use by another server. -/
theorem initServer_listens_none : ∃ code t,
    let addresses : List Address :=
      [⟨none, true, true, true⟩, ⟨some 3, false, true, true⟩, ⟨some 3, true, false, true⟩]
    initServer ⟨some (ascii "localhost"), 8080, ascii "select"⟩
        ⟨fun _ _ => some addresses, true, true⟩ ⟨.zeroed, { fds := {0, 1, 2} }, []⟩ =
        .ok (code, t) ∧ code = -1 ∧ t.worker.fds = {0, 1, 2} := by
  let addresses : List Address :=
    [⟨none, true, true, true⟩, ⟨some 3, false, true, true⟩, ⟨some 3, true, false, true⟩]
  let config : Parament := ⟨some (ascii "localhost"), 8080, ascii "select"⟩
  let net : Network := ⟨fun _ _ => some addresses, true, true⟩
  have hrun : ∃ code t, initServer config net ⟨.zeroed, { fds := {0, 1, 2} }, []⟩ = .ok (code, t) :=
    ⟨_, _, rfl⟩
  obtain ⟨code, t, hrun⟩ := hrun
  have hfresh : ∀ l, net.getaddrinfo config.host (portText config.port) = some l →
      ∀ p ∈ l, ∀ fd ∈ p.socket, fd ∉ ({0, 1, 2} : Finset Int) := by
    rintro l ⟨⟩
    decide
  refine ⟨code, t, hrun, ?_⟩
  rcases initServer_listens hrun hfresh rfl with ⟨⟨⟨l, p, hl, hp⟩, -⟩, -⟩ | ⟨-, hcode, hfds⟩
  · cases hl
    cases hp
  · exact ⟨hcode, hfds⟩

end Server
end MinhServer
