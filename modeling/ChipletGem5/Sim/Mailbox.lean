import ChipletGem5.Lib.TextStream

/-!
# The chiplet mailboxes

`PseudoInst::gadia_call` and `PseudoInst::gadia_receive` of `sim/pseudo_inst.cc`: cores
exchange `int` values through text files of the host, one file a receiver.  A call appends a
line `tick source target data` to the file of its target; a receive scans the file of its own
id from a read position that is one static variable of the simulator process.

A 64-bit register is a `BitVec 64`, an `int` is an integer between `-2^31` and `2^31`.  What both
functions print is left out.
-/

namespace ChipletGem5.Mailbox

open TextStream

/-- The conversion `(int)x` of a register. -/
def toInt (x : BitVec 64) : ℤ := (x.setWidth 32).toInt

/-- The range of `int`. -/
def intMin : ℤ := -2 ^ 31

@[inherit_doc intMin]
def intMax : ℤ := 2 ^ 31 - 1

/-- `fileName += core + '0'` appends one `char`: the sum modulo 256. -/
def fileName (core : ℤ) : List Char :=
  "communication".toList ++ [Char.ofNat ((core + 48) % 256).toNat]

/-- The path that `open` sees of a string: it ends at the first null character. -/
def cStr (s : List Char) : List Char := s.takeWhile (· != '\x00')

/-- The path of the mailbox of a core. -/
def mailboxPath (core : ℤ) : List Char := cStr (fileName core)

/-- What the simulator process can change: the files in its working directory and the static
read position of `gadia_receive`. -/
structure Host where
  /-- The contents of the files; `none` where there is no file. -/
  files : List Char → Option (List Char)
  /-- The static variable `gadia_last_position`. -/
  gadiaLastPosition : ℤ

/-- Open a file for appending, write `text` and close it.  A path that ends in a slash names
no regular file, so `open` fails and the output is dropped. -/
def Host.append (s : Host) (path text : List Char) : Host :=
  if path.getLast? = some '/' then s
  else { s with files := Function.update s.files path (some ((s.files path).getD [] ++ text)) }

/-- The fields of a line of a mailbox, under the names `gadia_receive` reads them into. -/
structure Message where
  /-- The tick of the call. -/
  time : ℕ
  /-- The source core. -/
  a : ℤ
  /-- The target core. -/
  b : ℤ
  /-- The data. -/
  c : ℤ
deriving DecidableEq, Repr

/-- The line that `gadia_call` writes, without its newline. -/
def Message.line (m : Message) : List Char :=
  putNat m.time ++ ' ' :: (putInt m.a ++ ' ' :: (putInt m.b ++ ' ' :: putInt m.c))

/-- `PseudoInst::gadia_call` at the current tick `tick`. -/
def gadiaCall (s : Host) (tick srcCore targetCoreNum data init : BitVec 64) : Host :=
  if init = 0 then
    s.append (mailboxPath (toInt targetCoreNum))
      (Message.line ⟨tick.toNat, toInt srcCore, toInt targetCoreNum, toInt data⟩ ++ ['\n'])
  else s

/-- The four extractions from a line.  `none` means that one of the variables is printed and
compared without having been assigned, which is undefined behaviour. -/
def parseLine (line : List Char) : Option Message :=
  let (s₁, time) := (IStream.ofText line).readUnsigned (2 ^ 64)
  let (s₂, a) := s₁.readSigned intMin intMax
  let (s₃, b) := s₂.readSigned intMin intMax
  let (_, c) := s₃.readSigned intMin intMax
  match time, a, b, c with
  | some time, some a, some b, some c => some ⟨time, a, b, c⟩
  | _, _, _, _ => none

/-- The acceptance test of `gadia_receive`. -/
def accepts (srcCore : ℤ) (m : Message) : Bool :=
  srcCore == m.b || (-1 == m.b && m.a != srcCore)

/-- The loop of `gadia_receive` over the lines that `getline` returns, each with the position
`tellg` reports after it: the data of the first accepted line and its position. -/
def receiveLoop (srcCore : ℤ) : List (List Char × ℤ) → Option (Option (ℤ × ℤ))
  | [] => some none
  | (line, pos) :: rest =>
      match parseLine line with
      | none => none
      | some m => if accepts srcCore m then some (some (m.c, pos)) else receiveLoop srcCore rest

/-- The lines of an open file from the read position on.  Seeking to a negative position sets
the fail bit, and then `getline` returns nothing. -/
def linesFrom (pos : ℤ) (content : List Char) : List (List Char × ℤ) :=
  if pos < 0 then [] else getlines pos.toNat [] (content.drop pos.toNat)

/-- The three ways in which `gadia_receive` returns. -/
inductive Outcome where
  /-- The mailbox could not be opened. -/
  | noFile
  /-- No line from the read position on is accepted. -/
  | noMatch
  /-- The data of the first accepted line. -/
  | found (c : ℤ)
deriving DecidableEq, Repr

/-- The 64-bit result; the `int` of an accepted line is sign-extended. -/
def Outcome.result : Outcome → BitVec 64
  | noFile => BitVec.ofInt 64 (-3)
  | noMatch => BitVec.ofInt 64 (-1)
  | found c => BitVec.ofInt 64 c

/-- `PseudoInst::gadia_receive`; `none` where it runs into undefined behaviour. -/
def gadiaReceive (s : Host) (srcCoreNumber : BitVec 64) : Option (Host × Outcome) :=
  let srcCore := toInt srcCoreNumber
  match s.files (mailboxPath srcCore) with
  | none => some (s, .noFile)
  | some content =>
      match receiveLoop srcCore (linesFrom s.gadiaLastPosition content) with
      | none => none
      | some none => some (s, .noMatch)
      | some (some (c, pos)) => some ({ s with gadiaLastPosition := pos }, .found c)

/-! ### Runs -/

/-- One pseudo instruction of some core. -/
inductive Step where
  /-- `gadia_call` at tick `tick`. -/
  | call (tick srcCore targetCoreNum data init : BitVec 64)
  /-- `gadia_receive`. -/
  | receive (srcCoreNumber : BitVec 64)
deriving DecidableEq, Repr

/-- Execute the pseudo instructions of the cores in the given order.  The log holds the
outcome of each receive with the id it was issued for. -/
def run : Host → List Step → Option (Host × List (ℤ × Outcome))
  | s, [] => some (s, [])
  | s, .call tick srcCore targetCoreNum data init :: steps =>
      run (gadiaCall s tick srcCore targetCoreNum data init) steps
  | s, .receive srcCoreNumber :: steps =>
      match gadiaReceive s srcCoreNumber with
      | none => none
      | some (s', o) =>
          (run s' steps).map fun p => (p.1, (toInt srcCoreNumber, o) :: p.2)

/-- The values returned to the receives of one id. -/
def returnedTo (r : ℤ) (log : List (ℤ × Outcome)) : List (BitVec 64) :=
  (log.filter fun p => p.1 == r).map fun p => p.2.result

/-- The mailboxes before the first call: no file, or empty files, and the position at the
start. -/
structure Fresh (s : Host) : Prop where
  files_empty : ∀ path, s.files path = none ∨ s.files path = some []
  position_zero : s.gadiaLastPosition = 0

@[simp] lemma run_nil (s : Host) : run s [] = some (s, []) := rfl

@[simp] lemma run_call (s : Host) (tick srcCore targetCoreNum data init : BitVec 64)
    (steps : List Step) :
    run s (.call tick srcCore targetCoreNum data init :: steps)
      = run (gadiaCall s tick srcCore targetCoreNum data init) steps := rfl

lemma run_receive {s s' : Host} {srcCoreNumber : BitVec 64} {o : Outcome}
    (h : gadiaReceive s srcCoreNumber = some (s', o)) (steps : List Step) :
    run s (.receive srcCoreNumber :: steps)
      = (run s' steps).map fun p => (p.1, (toInt srcCoreNumber, o) :: p.2) := by
  simp only [run, h]

lemma run_append (s : Host) (steps steps' : List Step) :
    run s (steps ++ steps')
      = (run s steps).bind fun p => (run p.1 steps').map fun p' => (p'.1, p.2 ++ p'.2) := by
  induction steps generalizing s with
  | nil => simp
  | cons st steps ih =>
    cases st with
    | call tick srcCore targetCoreNum data init =>
      rw [List.cons_append, run_call, run_call, ih]
    | receive srcCoreNumber =>
      rw [List.cons_append, run, run]
      cases gadiaReceive s srcCoreNumber with
      | none => rfl
      | some p =>
        obtain ⟨s', o⟩ := p
        simp only [ih]
        cases run s' steps with
        | none => rfl
        | some q =>
          simp only [Option.bind_some, Option.map_some, Option.map_map]
          congr 1

end ChipletGem5.Mailbox
