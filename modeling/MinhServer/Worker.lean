import Mathlib.Data.Finset.Basic
import Mathlib.Data.Fintype.EquivFin
import Mathlib.Data.Nat.Find
import Mathlib.Tactic.Common
import MinhServer.Http.Request

/-!
# The worker process

What request handling reads and changes outside its own locals: the descriptors
the process has open, the outcome of every `send`, the files on disk and the
global response structure. Every system call is recorded.
-/

namespace MinhServer
open CString

/-- The system calls of a connection and of the files sent over it. -/
inductive Call where
  | setTimeout (fd : Int) (seconds : Nat)
  | recv (fd : Int)
  | send (fd : Int) (accepted : Option Bytes)
  | fopen (name : Bytes) (fd : Int)
  | fclose (fd : Int)
  | close (fd : Int)
  deriving DecidableEq, Repr

/-- An open file: what `ftell` says at its end, and what reading it yields. -/
structure OpenFile where
  size : Int
  data : Bytes

structure Disk where
  readable : Bytes → Bool
  fopen : Bytes → Option OpenFile

/-- The global `res`; its defaults are the zeroed structure. -/
structure HttpResponse where
  statusCode : Int := 0
  statusMessage : Option Bytes := none
  contentType : Option Bytes := none
  contentLength : Nat := 0
  body : Option Bytes := none
  keepAlive : Bool := false
  deriving DecidableEq, Repr

/-- `sends` lists the outcomes of the coming `send` calls, an accepted count or an error;
past its end the socket takes everything. -/
structure Worker where
  fds : Finset Int
  sends : List (Option Nat) := []
  res : HttpResponse := {}
  log : List Call := []

namespace Worker

def record (w : Worker) (c : Call) : Worker := { w with log := w.log ++ [c] }

/-- `send`; the result says whether it was not negative. -/
def send (w : Worker) (fd : Int) (bytes : Bytes) : Bool × Worker :=
  if fd ∉ w.fds then (false, w.record (.send fd none))
  else
    match w.sends with
    | [] => (true, w.record (.send fd (some bytes)))
    | none :: rest => (false, { w with sends := rest }.record (.send fd none))
    | some n :: rest => (true, { w with sends := rest }.record (.send fd (some (bytes.take n))))

def close (w : Worker) (fd : Int) : Worker := { w with fds := w.fds.erase fd }.record (.close fd)

def fclose (w : Worker) (fd : Int) : Worker := { w with fds := w.fds.erase fd }.record (.fclose fd)

theorem exists_freeFd (fds : Finset Int) : ∃ n : Nat, (n : Int) ∉ fds := by
  obtain ⟨n, hn⟩ := Infinite.exists_notMem_finset (fds.image Int.toNat)
  exact ⟨n, fun h => hn (Finset.mem_image.mpr ⟨n, h, by simp⟩)⟩

def freeFd (fds : Finset Int) : Int := (Nat.find (exists_freeFd fds) : Nat)

theorem freeFd_notMem (fds : Finset Int) : freeFd fds ∉ fds := Nat.find_spec (exists_freeFd fds)

theorem freeFd_le {fds : Finset Int} {n : Nat} (h : (n : Int) ∉ fds) : freeFd fds ≤ n := by
  unfold freeFd
  exact_mod_cast Nat.find_min' (exists_freeFd fds) h

/-- A successful `fopen` takes the lowest free descriptor. -/
def fopen (w : Worker) (name : Bytes) : Int × Worker :=
  let fd := freeFd w.fds
  (fd, { w with fds := insert fd w.fds }.record (.fopen name fd))

end Worker
end MinhServer
