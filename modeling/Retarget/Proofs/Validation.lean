import Mathlib.Algebra.Group.Nat.Defs
import Retarget.Wasm.Module
import Retarget.Proofs.Bytes

/-!
# WebAssembly functions

How a function without calls and memory runs whose values are integers. Its code is nested here;
`Body.flatten` gives its sequence of instructions. A branch takes the operands that its target asks
for from the top of the stack; it goes to the end of a block, or to the start of a loop. Running times
out after so many turns of loops.
-/

namespace Retarget

lemma exists_of_mapM_cons {α β : Type} {g : α → Option β} {a : α} {as : List α} {bs : List β}
  (h : (a :: as).mapM g = some bs) : ∃ b cs, g a = some b ∧ as.mapM g = some cs ∧ b :: cs = bs := by
  rw [List.mapM_cons] at h
  obtain ⟨b, hb, h⟩ := Option.bind_eq_some_iff.1 h
  obtain ⟨cs, hcs, h⟩ := Option.bind_eq_some_iff.1 h
  exact ⟨b, cs, hb, hcs, Option.some.inj h⟩

end Retarget

namespace Retarget.Wasm

/-! ## Values -/

inductive Val where
  | i32 (v : BitVec 32)
  | i64 (v : BitVec 64)
  deriving DecidableEq

namespace Val

def type : Val → ValType
  | i32 _ => .num .i32
  | i64 _ => .num .i64

def zero? : ValType → Option Val
  | .num .i32 => some (i32 0)
  | .num .i64 => some (i64 0)
  | _ => none

def ofBool (b : Bool) : Val := i32 (if b then 1 else 0)

end Val

def opnds? (ts : List ValType) (st : List Val) : Option (List Val) :=
  let vs := st.take ts.length
  if vs.map Val.type = ts.reverse then some vs else none

section
variable {w : Nat}

def UnaryOp.apply (op : UnaryOp) (a : BitVec w) : Option (BitVec w) :=
  match op with
  | clz => some a.clz
  | ctz => some a.ctz
  | popcnt => some a.cpop
  | _ => none

def BinaryOp.apply (op : BinaryOp) (s : Reading) (a b : BitVec w) : Option (BitVec w) :=
  match op with
  | add => some (a + b)
  | sub => some (a - b)
  | mul => some (a * b)
  | and => some (a &&& b)
  | or => some (a ||| b)
  | xor => some (a ^^^ b)
  | shl => some (a <<< (b.toNat % w))
  | shr => some (if s = .unsigned then a >>> (b.toNat % w) else a.sshiftRight (b.toNat % w))
  | rotl => some (a.rotateLeft b.toNat)
  | rotr => some (a.rotateRight b.toNat)
  | div =>
    if b = 0 then none
    else if s = .unsigned then some (a.udiv b)
    else if a = BitVec.intMin w ∧ b = BitVec.allOnes w then none
    else some (a.sdiv b)
  | rem => if b = 0 then none else some (if s = .unsigned then a.umod b else a.srem b)
  | _ => none

def Relation.holds (r : Relation) (s : Reading) (a b : BitVec w) : Bool :=
  let less (a b : BitVec w) : Bool := if s = .unsigned then a.ult b else a.slt b
  match r with
  | eq => a == b
  | ne => a != b
  | lt => less a b
  | gt => less b a
  | le => !less b a
  | ge => !less a b

end

/-! ## Instructions -/

/-- How running some code ends, with what local variables and operand stack hold then. -/
inductive Outcome where
  | fall (locals stack : List Val)
  | branch (depth : Nat) (locals stack : List Val)
  | ret (stack : List Val)
  | trap
  | stuck
  | timeout

namespace Outcome

def andThen (o : Outcome) (rest : List Val → List Val → Outcome) : Outcome :=
  match o with
  | fall l st => rest l st
  | o => o

def push (l st : List Val) : Option Val → Outcome
  | some v => fall l (v :: st)
  | none => trap

/-- The outcome of a block, given that of its inside, what a branch to the block carries and what
such a branch does. -/
def exit (carried rets : List ValType) (jump : List Val → List Val → Outcome) : Outcome → Outcome
  | fall l st => if st.map Val.type = rets.reverse then fall l st else stuck
  | branch 0 l st =>
    match opnds? carried st with
    | some vs => jump l vs
    | none => stuck
  | branch (d + 1) l st => branch d l st
  | o => o

def leave (t : FnType) : Outcome → Outcome := exit t.rets t.rets fall

def turn (t : FnType) (again : List Val → List Val → Outcome) : Outcome → Outcome :=
  exit t.params t.rets again

end Outcome

/-- Running an instruction, given the local variables and the operand stack. -/
def Ins.run (i : Ins) (l st : List Val) : Outcome :=
  match i with
  | .intConst .i32 n =>
    if (BitVec.ofInt 32 n).toInt = n then .fall l (.i32 (BitVec.ofInt 32 n) :: st) else .stuck
  | .intConst .i64 n =>
    if (BitVec.ofInt 64 n).toInt = n then .fall l (.i64 (BitVec.ofInt 64 n) :: st) else .stuck
  | .drop =>
    match st with
    | _ :: st => .fall l st
    | _ => .stuck
  | .select =>
    match st with
    | .i32 c :: b :: a :: st =>
      if a.type = b.type then .fall l ((if c = 0 then b else a) :: st) else .stuck
    | _ => .stuck
  | .localGet n =>
    match l[n]? with
    | some v => .fall l (v :: st)
    | none => .stuck
  | .localSet n =>
    match st with
    | v :: st => if l[n]?.map Val.type = some v.type then .fall (l.set n v) st else .stuck
    | _ => .stuck
  | .localTee n =>
    match st with
    | v :: st => if l[n]?.map Val.type = some v.type then .fall (l.set n v) (v :: st) else .stuck
    | _ => .stuck
  | .unary t op =>
    match t, st with
    | .i32, .i32 a :: st => .push l st ((op.apply a).map .i32)
    | .i64, .i64 a :: st => .push l st ((op.apply a).map .i64)
    | _, _ => .stuck
  | .binary t op s =>
    match t, st with
    | .i32, .i32 b :: .i32 a :: st => .push l st ((op.apply s a b).map .i32)
    | .i64, .i64 b :: .i64 a :: st => .push l st ((op.apply s a b).map .i64)
    | _, _ => .stuck
  | .eqz t =>
    match t, st with
    | .i32, .i32 a :: st => .fall l (.ofBool (a == 0) :: st)
    | .i64, .i64 a :: st => .fall l (.ofBool (a == 0) :: st)
    | _, _ => .stuck
  | .compare t r s =>
    match t, st with
    | .i32, .i32 b :: .i32 a :: st => .fall l (.ofBool (r.holds s a b) :: st)
    | .i64, .i64 b :: .i64 a :: st => .fall l (.ofBool (r.holds s a b) :: st)
    | _, _ => .stuck
  | .br d => .branch d l st
  | .brIf d =>
    match st with
    | .i32 c :: st => if c = 0 then .fall l st else .branch d l st
    | _ => .stuck
  | .brTable ds other =>
    match st with
    | .i32 c :: st => .branch (ds.getD c.toNat other) l st
    | _ => .stuck
  | .return_ => .ret st
  | _ => .stuck

/-! ## Code -/

/-- Does the instruction neither open nor close a block? -/
def Ins.isPlain : Ins → Bool
  | blk _ | loop _ | if_ _ | else_ | end_ => false
  | _ => true

abbrev PlainIns := { i : Ins // i.isPlain }

inductive Body where
  | done
  | step (i : PlainIns) (rest : Body)
  | blk (t : BlkType) (inner rest : Body)
  | loop (t : BlkType) (inner rest : Body)
  | when (t : BlkType) (yes rest : Body)
  | choose (t : BlkType) (yes no rest : Body)

def Body.plain (is : List Ins) (rest : Body) : Body :=
  is.foldr (fun i b => if h : i.isPlain = true then .step ⟨i, h⟩ b else b) rest

def Body.flatten : Body → List Ins
  | done => []
  | step i rest => i.1 :: rest.flatten
  | blk t inner rest => .blk t :: inner.flatten ++ .end_ :: rest.flatten
  | loop t inner rest => .loop t :: inner.flatten ++ .end_ :: rest.flatten
  | when t yes rest => .if_ t :: yes.flatten ++ .end_ :: rest.flatten
  | choose t yes no rest => .if_ t :: yes.flatten ++ .else_ :: (no.flatten ++ .end_ :: rest.flatten)

section
variable (types : Option (List FnType))

def BlkType.fnType? : BlkType → Option FnType
  | empty => some ⟨[], []⟩
  | value t => some ⟨[], [t]⟩
  | typed n => types.bind (·[n]?)

/-- Enter a block, given what is done inside of it with its parameters, and what is done afterwards
with its results on top of the other operands. -/
def inBlk (t : BlkType) (st : List Val)
  (inside : FnType → List Val → Outcome) (rest : List Val → List Val → Outcome) : Outcome :=
  match t.fnType? types with
  | none => .stuck
  | some t =>
    match opnds? t.params st with
    | none => .stuck
    | some vs => (inside t vs).andThen fun l out => rest l (out ++ st.drop vs.length)

def onCondition (st : List Val) (run : Bool → List Val → Outcome) : Outcome :=
  match st with
  | .i32 c :: st => run (c ≠ 0) st
  | _ => .stuck

/-- What a loop does once it is begun anew. -/
abbrev Again := FnType → Body → List Val → List Val → Outcome

/-- Running code, given what loops do when they are begun anew. -/
def Body.runWith (again : Again) : Body → List Val → List Val → Outcome
  | done, l, st => .fall l st
  | step i rest, l, st => (i.1.run l st).andThen fun l st => rest.runWith again l st
  | blk t inner rest, l, st =>
    inBlk types t st (fun t vs => (inner.runWith again l vs).leave t)
      fun l st => rest.runWith again l st
  | loop t inner rest, l, st =>
    inBlk types t st (fun t vs => (inner.runWith again l vs).turn t (again t inner))
      fun l st => rest.runWith again l st
  | when t yes rest, l, st =>
    onCondition st fun b st =>
      inBlk types t st
        (fun t vs => (if b then yes.runWith again l vs else .fall l vs).leave t)
        fun l st => rest.runWith again l st
  | choose t yes no rest, l, st =>
    onCondition st fun b st =>
      inBlk types t st (fun t vs =>
          (if b then yes.runWith again l vs else no.runWith again l vs).leave t)
        fun l st => rest.runWith again l st

/-- What a loop does once it is begun anew, for as many turns. -/
def againFor : Nat → Again
  | 0, _, _, _, _ => .timeout
  | n + 1, t, inner, l, vs =>
    (inner.runWith types (againFor n) l vs).turn t (againFor n t inner)

def Body.run (b : Body) (types : Option (List FnType)) (turns : Nat) (l st : List Val) : Outcome :=
  b.runWith types (againFor types turns) l st

/-! ## Functions -/

inductive Answer where
  | returns (vs : List Val)
  | trap
  | stuck
  | timeout
  deriving DecidableEq

def Outcome.answer (rets : List ValType) : Outcome → Answer
  | fall _ st => if st.map Val.type = rets.reverse then .returns st.reverse else .stuck
  | branch 0 _ st | ret st =>
    match opnds? rets st with
    | some vs => .returns vs.reverse
    | none => .stuck
  | trap => .trap
  | timeout => .timeout
  | _ => .stuck

def initialLocals (locals : List (Nat × ValType)) : Option (List Val) :=
  (locals.flatMap fun (n, t) => List.replicate n t).mapM Val.zero?

def invoke (t : FnType) (locals : List (Nat × ValType)) (b : Body)
  (turns : Nat) (args : List Val) : Answer :=
  match initialLocals locals with
  | none => .stuck
  | some zeros =>
    if args.map Val.type = t.params then (b.run types turns (args ++ zeros) []).answer t.rets
    else .stuck

end

/-! ## Validated code

Types of operands are listed from the topmost one down. What comes after a jump may be typed as if any
operands were on the stack. `Body.track` takes a jump to leave on the stack what it does not take from
it. Code that can be followed this way is valid; other valid code has jumps in the middle, or leaves
operands behind at a jump. -/

open List Ins Bool
variable {out ps rs ts ts' : List NumType} {b : Body} {i : Ins} {rets : List NumType}

/-! ## Types of instructions -/

/-- What is taken from the stack and what is left there, both with the topmost operand last. -/
structure Arrow where
  params : List NumType
  rets : List NumType
  deriving DecidableEq

def ValType.num? : ValType → Option NumType
  | num t => some t
  | ref _ => none

def FnType.arrow? (t : FnType) : Option Arrow := do
  return ⟨← t.params.mapM ValType.num?, ← t.rets.mapM ValType.num?⟩

def NumType.isInt : NumType → Bool
  | i32 | i64 => true
  | f32 | f64 => false

def NumType.bits : NumType → Nat
  | i32 | f32 => 32
  | i64 | f64 => 64

structure Scope where
  types : Option (List FnType)
  functions : List Arrow
  globals : List (NumType × Bool)
  locals : List NumType
  rets : List NumType
  hasTable : Bool
  hasMemory : Bool

variable (C : Scope)

def Scope.blkArrow? (t : BlkType) : Option Arrow := (t.fnType? C.types).bind FnType.arrow?

def Scope.calledArrow? (type table : Nat) : Option Arrow :=
  if C.hasTable ∧ table = 0 then C.blkArrow? (.typed type) else none

/-- An access promises no more alignment than it has bytes. -/
def Access.fits (a : Access) (t : NumType) (n : Option Narrow) : Bool :=
  8 * 2 ^ a.align ≤ (n.map Narrow.bits).getD t.bits

def Ins.arrow? (i : Ins) : Option Arrow :=
  let numeric (a : Arrow) : Option Arrow := if i ∈ numeric then some a else none
  match i with
  | nop => some ⟨[], []⟩
  | intConst t n => if t.isInt ∧ (BitVec.ofInt t.bits n).toInt = n then some ⟨[], [t]⟩ else none
  | realConst t _ => if t.isInt then none else some ⟨[], [t]⟩
  | localGet n => C.locals[n]?.map fun t => ⟨[], [t]⟩
  | localSet n => C.locals[n]?.map fun t => ⟨[t], []⟩
  | localTee n => C.locals[n]?.map fun t => ⟨[t], [t]⟩
  | globalGet n => C.globals[n]?.map fun g => ⟨[], [g.1]⟩
  | globalSet n => C.globals[n]?.bind fun g => if g.2 then some ⟨[g.1], []⟩ else none
  | load t n a => if C.hasMemory ∧ (t, n) ∈ loads ∧ a.fits t n then some ⟨[.i32], [t]⟩ else none
  | store t n a => if C.hasMemory ∧ (t, n) ∈ stores ∧ a.fits t n then some ⟨[.i32, t], []⟩ else none
  | memorySize n => if C.hasMemory ∧ n = 0 then some ⟨[], [.i32]⟩ else none
  | memoryGrow n => if C.hasMemory ∧ n = 0 then some ⟨[.i32], [.i32]⟩ else none
  | call f => C.functions[f]?
  | callIndirect type table =>
    (C.calledArrow? type table).map fun a => ⟨a.params ++ [.i32], a.rets⟩
  | unary t _ => numeric ⟨[t], [t]⟩
  | binary t _ _ => numeric ⟨[t, t], [t]⟩
  | eqz t => numeric ⟨[t], [.i32]⟩
  | compare t _ _ => numeric ⟨[t, t], [.i32]⟩
  | convert _ dst src _ => numeric ⟨[src], [dst]⟩
  | reinterpret dst src => numeric ⟨[src], [dst]⟩
  | _ => none

/-! ## Valid code -/

/-- An instruction takes operands of types `ps` from the stack and leaves operands of types `rs`.
The `labels` are the types of what branches carry, by their depths. -/
inductive Ins.HasType (C : Scope) (labels : List (List NumType)) :
    Ins → List NumType → List NumType → Prop where
  | arrow {i : Ins} {a : Arrow} (h : i.arrow? C = some a) :
      HasType C labels i a.params.reverse a.rets.reverse
  | drop (t : NumType) : HasType C labels .drop [t] []
  | select (t : NumType) : HasType C labels .select [.i32, t, t] [t]
  | unreachable (ps rs : List NumType) : HasType C labels .unreachable ps rs
  | br {d : Nat} {ts : List NumType} (h : labels[d]? = some ts) (ps rs : List NumType) :
      HasType C labels (.br d) (ts.reverse ++ ps) rs
  | brIf {d : Nat} {ts : List NumType} (h : labels[d]? = some ts) :
      HasType C labels (.brIf d) (.i32 :: ts.reverse) ts.reverse
  | brTable {ds : List Nat} {other : Nat} {ts : List NumType}
      (h : ∀ d ∈ other :: ds, labels[d]? = some ts) (ps rs : List NumType) :
      HasType C labels (.brTable ds other) (.i32 :: (ts.reverse ++ ps)) rs
  | return_ (ps rs : List NumType) : HasType C labels .return_ (C.rets.reverse ++ ps) rs

/-- Code gets from operands of some types to operands of other types. -/
inductive Body.Valid (C : Scope) : List (List NumType) → Body → List NumType → List NumType → Prop
    where
  | done {labels : List (List NumType)} (ts : List NumType) : Valid C labels .done ts ts
  | step {labels : List (List NumType)} {i : PlainIns} {rest : Body} {ps rs ts out : List NumType}
      (hi : i.1.HasType C labels ps rs) (hrest : Valid C labels rest (rs ++ ts) out) :
      Valid C labels (.step i rest) (ps ++ ts) out
  | blk {labels : List (List NumType)} {t : BlkType} {inner rest : Body} {a : Arrow}
      {ts out : List NumType} (ht : C.blkArrow? t = some a)
      (hin : Valid C (a.rets :: labels) inner a.params.reverse a.rets.reverse)
      (hrest : Valid C labels rest (a.rets.reverse ++ ts) out) :
      Valid C labels (.blk t inner rest) (a.params.reverse ++ ts) out
  | loop {labels : List (List NumType)} {t : BlkType} {inner rest : Body} {a : Arrow}
      {ts out : List NumType} (ht : C.blkArrow? t = some a)
      (hin : Valid C (a.params :: labels) inner a.params.reverse a.rets.reverse)
      (hrest : Valid C labels rest (a.rets.reverse ++ ts) out) :
      Valid C labels (.loop t inner rest) (a.params.reverse ++ ts) out
  | when {labels : List (List NumType)} {t : BlkType} {yes rest : Body} {a : Arrow}
      {ts out : List NumType} (ht : C.blkArrow? t = some a) (hsame : a.params = a.rets)
      (hyes : Valid C (a.rets :: labels) yes a.params.reverse a.rets.reverse)
      (hrest : Valid C labels rest (a.rets.reverse ++ ts) out) :
      Valid C labels (.when t yes rest) (.i32 :: (a.params.reverse ++ ts)) out
  | choose {labels : List (List NumType)} {t : BlkType} {yes no rest : Body} {a : Arrow}
      {ts out : List NumType} (ht : C.blkArrow? t = some a)
      (hyes : Valid C (a.rets :: labels) yes a.params.reverse a.rets.reverse)
      (hno : Valid C (a.rets :: labels) no a.params.reverse a.rets.reverse)
      (hrest : Valid C labels rest (a.rets.reverse ++ ts) out) :
      Valid C labels (.choose t yes no rest) (.i32 :: (a.params.reverse ++ ts)) out

lemma Body.Valid.step_all {C : Scope} {labels : List (List NumType)} {i : PlainIns} {rest : Body}
  (hi : i.1.HasType C labels ps rs) (hrest : rest.Valid C labels rs out) :
  (Body.step i rest).Valid C labels ps out := by
  rw [← append_nil ps]
  exact .step hi (by rwa [append_nil])

/-- The code of a function is valid: it leaves the results of the function, which a branch out of
all its blocks carries too. -/
def Scope.Validates (b : Body) : Prop := b.Valid C [C.rets] [] C.rets.reverse

/-! ## Following types -/

def strip? (ps ts : List NumType) : Option (List NumType) :=
  if ts.take ps.length = ps then some (ts.drop ps.length) else none

lemma strip?_eq_some {rest : List NumType} : strip? ps ts = some rest ↔ ts = ps ++ rest := by
  unfold strip?
  constructor
  · intro h
    split at h
    · rename_i htake
      cases h
      exact ((congrArg (· ++ _) htake.symm).trans (take_append_drop ps.length ts)).symm
    · cases h
  · rintro rfl
    simp

structure Tgt where
  isLoop : Bool
  arrow : Arrow
  /-- How many operands of the function are below those of the block. -/
  below : Nat

namespace Tgt

def types (b : Tgt) : List NumType := if b.isLoop then b.arrow.params else b.arrow.rets

/-- What a branch carries is where the code behind it looks for it, if there are `n` operands. -/
def inPlace (b : Tgt) (n : Nat) : Bool := b.types.isEmpty || n == b.below + b.types.length

/-- Does what a branch to the block carries get to where the code behind it looks for it, if there
are `n` operands? Operands are moved by branches out of blocks, to where the results of a block
without parameters are, even if the branch is conditional and not taken. They are moved one after
the other, so that they are lost if places overlap. -/
def carries (b : Tgt) (conditional : Bool) (n : Nat) : Bool :=
  b.types.isEmpty ||
    (b.isLoop || b.arrow.params.isEmpty) && n == b.below + b.types.length ||
    !b.isLoop && !conditional && b.arrow.params.isEmpty && b.below + 2 * b.types.length ≤ n

end Tgt

structure Track where
  scope : Scope
  blks : List Tgt
  /-- Branches are followed only if what they carry gets to where it belongs. -/
  careful : Bool

namespace Track
variable (T : Track)

def below : Nat := (T.blks.head?.map Tgt.below).getD 0

def enter (isLoop : Bool) (a : Arrow) (rest : List NumType) : Track :=
  { T with blks := ⟨isLoop, a, T.below + rest.length⟩ :: T.blks }

def labels : List (List NumType) := T.blks.map Tgt.types ++ [T.scope.rets]

/-- Does a branch get what it carries to where it belongs, as far as this is asked for? -/
def allows (b : Tgt) (conditional : Bool) (ts : List NumType) : Bool :=
  !T.careful || b.carries conditional (T.below + ts.length)

/-- Does a jump by a table find what it carries where it belongs, as far as this is asked for? -/
def allowsAll (bs : List Tgt) (ts : List NumType) : Bool :=
  !T.careful || bs.all fun b => b.inPlace (T.below + ts.length)

end Track

def Ins.track (T : Track) (i : Ins) (ts : List NumType) : Option (List NumType) :=
  match i with
  | drop => ts.head?.map fun _ => ts.tail
  | select => do
    let ts ← strip? [.i32] ts
    let t ← ts.head?
    return t :: (← strip? [t, t] ts)
  | unreachable => some ts
  | br d => do
    let b ← T.blks[d]?
    let _ ← strip? b.types.reverse ts
    if T.allows b false ts then some ts else none
  | brIf d => do
    let b ← T.blks[d]?
    let ts ← strip? [.i32] ts
    let _ ← strip? b.types.reverse ts
    if T.allows b true ts then some ts else none
  | brTable ds other => do
    let bs ← (other :: ds).mapM (T.blks[·]?)
    let b ← bs.head?
    let ts ← strip? [.i32] ts
    let _ ← strip? b.types.reverse ts
    -- there are never more targets than that in a module
    if (bs.all fun b' => b'.types == b.types) && ds.length < 2 ^ 32 && T.allowsAll bs ts
    then some ts
    else none
  | return_ => strip? T.scope.rets.reverse ts
  | callIndirect type table => do
    let a ← T.scope.calledArrow? type table
    let ts ← strip? [.i32] ts
    let rest ← strip? a.params.reverse ts
    -- the call needs a function of the module for its type
    if a ∈ T.scope.functions then some (a.rets.reverse ++ rest) else none
  | i => do
    let a ← i.arrow? T.scope
    return a.rets.reverse ++ (← strip? a.params.reverse ts)

/-- Does the code end in a jump whose operands are left over? -/
def Body.leavesOpen (b : Body) : Bool := b.flatten.getLast?.any Ins.leavesOpen

/-- May operands of types `out` be left at the end of a block with the given results? After a jump
the lowest ones are taken for results. -/
def endsWith (rets : List NumType) (leaves : Bool) (out : List NumType) : Bool :=
  if leaves then out.drop (out.length - rets.length) == (rets.take out.length).reverse
  else out == rets.reverse

def Track.inBlk (T : Track) (isLoop : Bool) (t : BlkType) (ts : List NumType)
  (inside : Track → Arrow → Bool) : Option (List NumType) := do
  let a ← T.scope.blkArrow? t
  let rest ← strip? a.params.reverse ts
  if inside (T.enter isLoop a rest) a then some (a.rets.reverse ++ rest) else none

def Body.track (T : Track) : Body → List NumType → Option (List NumType)
  | done, ts => some ts
  | step i rest, ts => (i.1.track T ts).bind (rest.track T)
  | blk t inner rest, ts =>
    (T.inBlk false t ts fun T a =>
      (inner.track T a.params.reverse).any (endsWith a.rets inner.leavesOpen)).bind
      (rest.track T)
  | loop t inner rest, ts =>
    (T.inBlk true t ts fun T a =>
      (inner.track T a.params.reverse).any (endsWith a.rets inner.leavesOpen)).bind
      (rest.track T)
  | when t yes rest, ts =>
    (strip? [.i32] ts).bind fun ts =>
      (T.inBlk false t ts fun T a =>
        a.params == a.rets &&
          (yes.track T a.params.reverse).any (endsWith a.rets yes.leavesOpen)).bind
          (rest.track T)
  | choose t yes no rest, ts =>
    (strip? [.i32] ts).bind fun ts =>
      (T.inBlk false t ts fun T a =>
        ((yes.track T a.params.reverse).any fun out =>
          yes.leavesOpen || out == a.rets.reverse) &&
          (no.track T a.params.reverse).any (endsWith a.rets no.leavesOpen)).bind (rest.track T)

def Body.leavesFn (b : Body) : Bool :=
  b.flatten.getLast?.any fun i => i == .return_ || i.leavesOpen

def Scope.follows (careful : Bool) (b : Body) : Bool :=
  (b.track ⟨C, [], careful⟩ []).any fun out =>
    out == if b.leavesFn then [] else C.rets.reverse

inductive Ins.Followed (T : Track) : Ins → List NumType → List NumType → Prop where
  | arrow {i : Ins} {a : Arrow} (h : i.arrow? T.scope = some a)
      (hcall : ∀ type table, i ≠ .callIndirect type table) (rest : List NumType) :
      Followed T i (a.params.reverse ++ rest) (a.rets.reverse ++ rest)
  | callIndirect {type table : Nat} {a : Arrow} (h : T.scope.calledArrow? type table = some a)
      (hmem : a ∈ T.scope.functions) (rest : List NumType) :
      Followed T (.callIndirect type table) (.i32 :: (a.params.reverse ++ rest))
        (a.rets.reverse ++ rest)
  | drop (t : NumType) (rest : List NumType) : Followed T .drop (t :: rest) rest
  | select (t : NumType) (rest : List NumType) :
      Followed T .select (.i32 :: t :: t :: rest) (t :: rest)
  | unreachable (ts : List NumType) : Followed T .unreachable ts ts
  | br {d : Nat} {b : Tgt} {ts rest : List NumType} (hb : T.blks[d]? = some b)
      (hts : ts = b.types.reverse ++ rest) (hcarry : T.allows b false ts) :
      Followed T (.br d) ts ts
  | brIf {d : Nat} {b : Tgt} {ts rest : List NumType} (hb : T.blks[d]? = some b)
      (hts : ts = b.types.reverse ++ rest) (hcarry : T.allows b true ts) :
      Followed T (.brIf d) (.i32 :: ts) ts
  | brTable {ds : List Nat} {other : Nat} {b : Tgt} {bs : List Tgt} {ts rest : List NumType}
      (hb : T.blks[other]? = some b) (hbs : ds.mapM (T.blks[·]?) = some bs)
      (hsame : ∀ b' ∈ bs, b'.types = b.types) (hcnt : ds.length < 2 ^ 32)
      (hts : ts = b.types.reverse ++ rest) (hcarry : T.allowsAll (b :: bs) ts) :
      Followed T (.brTable ds other) (.i32 :: ts) ts
  | return_ (rest : List NumType) : Followed T .return_ (T.scope.rets.reverse ++ rest) rest

lemma exists_mem_of_mapM {α β : Type} {f : α → Option β} {xs : List α} {ys : List β}
  (h : xs.mapM f = some ys) {x : α} (hx : x ∈ xs) : ∃ y ∈ ys, f x = some y := by
  induction xs generalizing ys with
  | nil => cases hx
  | cons z xs ih =>
    obtain ⟨y, ys', hy, hys', rfl⟩ := exists_of_mapM_cons h
    rcases mem_cons.1 hx with rfl | hx
    · exact ⟨y, .head _, hy⟩
    · obtain ⟨y', hmem, hy'⟩ := ih hys' hx
      exact ⟨y', .tail _ hmem, hy'⟩

lemma Ins.followed_of_track {T : Track} (h : i.track T ts = some ts') : i.Followed T ts ts' := by
  unfold track at h
  split at h
  all_goals try simp only [Option.bind_eq_bind, Option.bind_eq_some_iff, strip?_eq_some,
    Option.ite_none_right_eq_some, Option.pure_def, Option.some.injEq] at h
  · cases ts with
    | nil => cases h
    | cons t ts =>
      cases h
      exact .drop t ts
  · obtain ⟨ts1, rfl, t, ht, rest, rfl, rfl⟩ := h
    exact .select t rest
  · cases h
    exact .unreachable ts
  · obtain ⟨b, hb, rest, hts, hcarry, rfl⟩ := h
    exact .br hb hts hcarry
  · obtain ⟨b, hb, ts1, rfl, rest, hts, hcarry, rfl⟩ := h
    exact .brIf hb hts hcarry
  · obtain ⟨bs, hbs, b', hb', ts1, rfl, rest, hts, hcarry, rfl⟩ := h
    obtain ⟨b, bs1, hb, hbs1, rfl⟩ := exists_of_mapM_cons hbs
    cases hb'
    rw [and_eq_true, and_eq_true, all_cons, and_eq_true, all_eq_true, decide_eq_true_eq] at hcarry
    obtain ⟨⟨⟨-, hsame⟩, hcnt⟩, hcarry⟩ := hcarry
    exact .brTable hb hbs1 (fun b1 hb1 => eq_of_beq (hsame b1 hb1)) hcnt hts hcarry
  · subst h
    exact .return_ ts'
  · obtain ⟨a, ha, ts1, rfl, rest, rfl, hmem, rfl⟩ := h
    exact .callIndirect ha hmem rest
  · rename_i hcall
    obtain ⟨a, ha, rest, rfl, rfl⟩ := h
    exact .arrow ha hcall rest

lemma Track.inBlk_eq_some {T : Track}
  {isLoop : Bool} {t : BlkType} {inside : Track → Arrow → Bool} : T.inBlk isLoop t ts inside =
  some out ↔ ∃ a rest, T.scope.blkArrow? t = some a ∧ ts = a.params.reverse ++ rest ∧
  inside (T.enter isLoop a rest) a ∧ out = a.rets.reverse ++ rest := by
  simp only [inBlk, Option.bind_eq_bind, Option.bind_eq_some_iff, strip?_eq_some,
    Option.ite_none_right_eq_some, Option.some.injEq]
  constructor
  · rintro ⟨a, ha, rest, hts, hinside, rfl⟩
    exact ⟨a, rest, ha, hts, hinside, rfl⟩
  · rintro ⟨a, rest, ha, hts, hinside, rfl⟩
    exact ⟨a, ha, rest, hts, hinside, rfl⟩

section
variable {T : Track} {t : BlkType} {inner yes no rest : Body}

/-- What is inside a block or a loop and what comes after it can be followed. -/
def Body.Enters (T : Track) (isLoop : Bool) (t : BlkType) (inner rest : Body)
  (ts out : List NumType) : Prop :=
  ∃ a below inside, T.scope.blkArrow? t = some a ∧ ts = a.params.reverse ++ below ∧
    inner.track (T.enter isLoop a below) a.params.reverse = some inside ∧
    endsWith a.rets inner.leavesOpen inside ∧
    rest.track T (a.rets.reverse ++ below) = some out

lemma Body.track_bracket :
  ((blk t inner rest).track T ts = some out → Enters T false t inner rest ts out) ∧
  ((loop t inner rest).track T ts = some out → Enters T true t inner rest ts out) := by
  constructor
  all_goals
    intro h
    obtain ⟨ts1, hblk, hrest⟩ := Option.bind_eq_some_iff.1 h
    obtain ⟨a, below, ha, hts, hinside, rfl⟩ := Track.inBlk_eq_some.1 hblk
    obtain ⟨inside, hin, hends⟩ := (Option.any_eq_true _ _).1 hinside
    exact ⟨a, below, inside, ha, hts, hin, hends, hrest⟩

lemma Body.track_when (h : (when t yes rest).track T ts = some out) :
  ∃ a below inside, T.scope.blkArrow? t = some a ∧ ts = .i32 :: (a.params.reverse ++ below) ∧
    a.params = a.rets ∧ yes.track (T.enter false a below) a.params.reverse = some inside ∧
    endsWith a.rets yes.leavesOpen inside ∧
    rest.track T (a.rets.reverse ++ below) = some out := by
  obtain ⟨ts0, hcond, hwhen⟩ := Option.bind_eq_some_iff.1 h
  obtain ⟨ts1, hblk, hrest⟩ := Option.bind_eq_some_iff.1 hwhen
  obtain ⟨a, below, ha, rfl, hinside, rfl⟩ := Track.inBlk_eq_some.1 hblk
  obtain ⟨hsame, hyes⟩ := and_eq_true_iff.1 hinside
  obtain ⟨inside, hyes, hends⟩ := (Option.any_eq_true _ _).1 hyes
  exact ⟨a, below, inside, ha, strip?_eq_some.1 hcond, eq_of_beq hsame, hyes, hends, hrest⟩

lemma Body.track_choose (h : (choose t yes no rest).track T ts = some out) :
  ∃ a below inside inside', T.scope.blkArrow? t = some a ∧
    ts = .i32 :: (a.params.reverse ++ below) ∧
    yes.track (T.enter false a below) a.params.reverse = some inside ∧
    (yes.leavesOpen = false → inside = a.rets.reverse) ∧
    no.track (T.enter false a below) a.params.reverse = some inside' ∧
    endsWith a.rets no.leavesOpen inside' ∧
    rest.track T (a.rets.reverse ++ below) = some out := by
  obtain ⟨ts0, hcond, hchoose⟩ := Option.bind_eq_some_iff.1 h
  obtain ⟨ts1, hblk, hrest⟩ := Option.bind_eq_some_iff.1 hchoose
  obtain ⟨a, below, ha, rfl, hinside, rfl⟩ := Track.inBlk_eq_some.1 hblk
  obtain ⟨hyes, hno⟩ := and_eq_true_iff.1 hinside
  obtain ⟨inside, hyes, hends⟩ := (Option.any_eq_true _ _).1 hyes
  obtain ⟨inside', hno, hends'⟩ := (Option.any_eq_true _ _).1 hno
  refine ⟨a, below, inside, inside', ha, strip?_eq_some.1 hcond, hyes, ?_, hno, hends', hrest⟩
  intro hlvs
  rw [hlvs] at hends
  exact eq_of_beq hends

end

/-! ## What can be followed is valid -/

def Ins.isJump : Ins → Bool
  | unreachable | br _ | brTable .. | return_ => true
  | _ => false

lemma Body.getLast?_step (i : PlainIns) (rest : Body) :
  (step i rest).flatten.getLast? = some (rest.flatten.getLast?.getD i) := by
  simp [flatten, getLast?_cons]

/-- The end of a block is no jump. -/
lemma endsJump_of_end {is js : List Ins} (h : (is ++ .end_ :: js).getLast?.any isJump) :
  js.getLast?.any isJump := by
  rw [getLast?_append, getLast?_cons] at h
  cases hlast : js.getLast? <;> simp_all [isJump]

section
variable {C : Scope} {labels : List (List NumType)}

/-- A jump takes any operands below those that it needs, and leaves any operands. -/
lemma Ins.HasType.of_jump (h : i.HasType C labels ps rs) (hjump : i.isJump)
  (ts rs' : List NumType) : i.HasType C labels (ps ++ ts) rs' := by
  cases h with
  | arrow h =>
    cases i
    case unreachable | br | brTable | return_ => simp [arrow?] at h
    all_goals cases hjump
  | drop | select | brIf => cases hjump
  | unreachable => exact .unreachable ..
  | br h =>
    rw [append_assoc]
    exact .br h ..
  | brTable h =>
    rw [cons_append, append_assoc]
    exact .brTable h ..
  | return_ =>
    rw [append_assoc]
    exact .return_ ..

/-- After a jump any operands may be taken to be on the stack. -/
lemma Body.Valid.of_jump (h : b.Valid C labels ts out)
  (hjump : b.flatten.getLast?.any isJump) (out' : List NumType) : b.Valid C labels ts out' := by
  induction h with
  | done => simp [flatten] at hjump
  | @step _ i rest ps rs ts out hi hvalid ih =>
    rw [getLast?_step] at hjump
    cases hlast : rest.flatten.getLast? with
    | some j =>
      rw [hlast] at hjump ih
      exact .step hi (ih hjump)
    | none =>
      obtain rfl : rest = .done := by
        cases rest with
        | done => rfl
        | _ => simp [flatten] at hlast
      exact .step_all (hi.of_jump hjump ts out') (.done out')
  | blk ht hin _ _ ih => exact .blk ht hin (ih (endsJump_of_end hjump))
  | loop ht hin _ _ ih => exact .loop ht hin (ih (endsJump_of_end hjump))
  | when ht hsame hyes _ _ ih => exact .when ht hsame hyes (ih (endsJump_of_end hjump))
  | choose ht hyes hno _ _ _ ih =>
    rw [flatten, ← cons_append, ← append_assoc] at hjump
    exact .choose ht hyes hno (ih (endsJump_of_end hjump))

variable {T : Track}

lemma Ins.hasType_of_track (h : i.track T ts = some ts') :
  ∃ ps rs rest, i.HasType T.scope T.labels ps rs ∧ ts = ps ++ rest ∧ ts' = rs ++ rest := by
  have hlabel : ∀ {d : Nat} {b : Tgt}, T.blks[d]? = some b → T.labels[d]? = some b.types := by
    intro d b hb
    have hlt : d < (T.blks.map Tgt.types).length := by
      rw [length_map]
      exact (List.getElem?_eq_some_iff.1 hb).1
    rw [Track.labels, List.getElem?_append_left hlt, List.getElem?_map, hb]
    rfl
  cases followed_of_track h with
  | arrow ha _ rest => exact ⟨_, _, rest, .arrow ha, rfl, rfl⟩
  | @callIndirect type table a ha _ rest =>
    have harrow : (callIndirect type table).arrow? T.scope =
        some ⟨a.params ++ [.i32], a.rets⟩ := by
      rw [arrow?, ha]
      rfl
    exact ⟨_, _, rest, .arrow harrow, by simp, rfl⟩
  | drop t => exact ⟨[t], [], ts', .drop t, rfl, rfl⟩
  | select t rest => exact ⟨_, _, rest, .select t, rfl, rfl⟩
  | unreachable => exact ⟨ts, ts, [], .unreachable .., by simp, by simp⟩
  | @br d b _ rest hb hts =>
    refine ⟨ts, ts, [], ?_, by simp, by simp⟩
    have htype := HasType.br (C := T.scope) (hlabel hb) rest ts
    rwa [← hts] at htype
  | @brIf d b _ rest hb hts => exact ⟨_, _, rest, .brIf (hlabel hb), by rw [hts]; rfl, hts⟩
  | @brTable ds other b bs _ rest hb hbs hsame _ hts =>
    refine ⟨.i32 :: ts', ts', [], ?_, by simp, by simp⟩
    have hlbs : ∀ d ∈ other :: ds, T.labels[d]? = some b.types := by
      intro d hd
      rcases mem_cons.1 hd with rfl | hd
      · exact hlabel hb
      · obtain ⟨b', hb', hget⟩ := exists_mem_of_mapM hbs hd
        rw [hlabel hget, hsame b' hb']
    have htype := HasType.brTable (C := T.scope) hlbs rest ts'
    rwa [← hts] at htype
  | return_ => exact ⟨_, [], ts', by simpa using HasType.return_ [] [], by simp, by simp⟩

lemma endsWith_spec {leaves : Bool}
  (h : endsWith rets leaves out) (hlvs : leaves = false) : out = rets.reverse := by
  rw [endsWith, hlvs] at h
  exact eq_of_beq h

lemma Ins.isJump_of_leavesOpen (h : i.leavesOpen) : i.isJump := by
  cases i <;> first | rfl | cases h

lemma Body.Valid.of_ends (h : b.Valid C labels ts out)
  (hends : b.leavesOpen = false → out = rets.reverse) :
  b.Valid C labels ts rets.reverse := by
  cases hlvs : b.leavesOpen with
  | false => exact hends hlvs ▸ h
  | true =>
    refine h.of_jump ?_ _
    obtain ⟨i, hi, hopen⟩ := (Option.any_eq_true _ _).1 hlvs
    exact (Option.any_eq_true _ _).2 ⟨i, hi, Ins.isJump_of_leavesOpen hopen⟩

lemma Body.valid_of_track (h : b.track T ts = some out) : b.Valid T.scope T.labels ts out := by
  induction b generalizing T ts out with
  | done =>
    obtain rfl := Option.some.inj h
    exact .done ts
  | step i rest ih =>
    obtain ⟨ts1, hi, hrest⟩ := Option.bind_eq_some_iff.1 h
    obtain ⟨ps, rs, below, htype, rfl, rfl⟩ := hasType_of_track hi
    exact .step htype (ih hrest)
  | blk t inner rest ihInner ihRest =>
    obtain ⟨a, below, inside, ha, rfl, hin, hends, hrest⟩ := track_bracket.1 h
    exact .blk ha ((ihInner hin).of_ends (endsWith_spec hends)) (ihRest hrest)
  | loop t inner rest ihInner ihRest =>
    obtain ⟨a, below, inside, ha, rfl, hin, hends, hrest⟩ := track_bracket.2 h
    exact .loop ha ((ihInner hin).of_ends (endsWith_spec hends)) (ihRest hrest)
  | when t yes rest ihYes ihRest =>
    obtain ⟨a, below, inside, ha, rfl, hsame, hyes, hends, hrest⟩ := track_when h
    exact .when ha hsame ((ihYes hyes).of_ends (endsWith_spec hends)) (ihRest hrest)
  | choose t yes no rest ihYes ihNo ihRest =>
    obtain ⟨a, below, inside, inside', ha, rfl, hyes, hends, hno, hends', hrest⟩ := track_choose h
    exact .choose ha ((ihYes hyes).of_ends hends) ((ihNo hno).of_ends (endsWith_spec hends'))
      (ihRest hrest)

lemma Body.endsJump_of_leavesFn (h : b.leavesFn) : b.flatten.getLast?.any isJump := by
  obtain ⟨i, hi, hjump⟩ := (Option.any_eq_true _ _).1 h
  refine (Option.any_eq_true _ _).2 ⟨i, hi, ?_⟩
  rcases or_eq_true_iff.1 hjump with hret | hopen
  · rw [eq_of_beq hret]
    rfl
  · exact isJump_of_leavesOpen hopen

lemma Scope.validates_of_follows {careful : Bool} (h : C.follows careful b) : C.Validates b := by
  obtain ⟨out, htrack, hout⟩ := (Option.any_eq_true _ _).1 h
  have hvalid : b.Valid C [C.rets] [] out := Body.valid_of_track htrack
  cases hlvs : b.leavesFn with
  | false =>
    rw [hlvs] at hout
    rwa [eq_of_beq hout] at hvalid
  | true => exact hvalid.of_jump (Body.endsJump_of_leavesFn hlvs) _

end

/-! ## Sections -/

open Decoder Enc.Leb128 Text

lemma sized_append (bs rest : Bytes) :
  sized (writeU bs.length ++ (bs ++ rest)) = .ok (bs, rest) := by
  simp [sized, nat, readU_append, atMost, bind, StateT.bind, Except.bind]
  rfl

/-- Sections as they stand in a module: a code, the number of bytes, and the bytes. -/
def frame (ss : List (UInt8 × Bytes)) : Bytes :=
  ss.flatMap fun (code, bs) => code :: (writeU bs.length ++ bs)

def addSec (m : Module) : UInt8 × Bytes → Res Module
  | (code, bs) => do whole (← secReader m code) bs

lemma readSecs_frame {ss : List (UInt8 × Bytes)} {fuel : Nat} (m : Module)
  (h : (frame ss).length ≤ fuel) : readSecs fuel m (frame ss) = ss.foldlM addSec m := by
  induction ss generalizing fuel m with
  | nil => cases fuel <;> rfl
  | cons s ss ih =>
    have hframe : frame (s :: ss) = s.1 :: (writeU s.2.length ++ (s.2 ++ frame ss)) := by
      simp [frame]
    rw [hframe] at h ⊢
    cases fuel with
    | zero => cases h
    | succ fuel =>
      have hfuel : (frame ss).length ≤ fuel := by simp at h; omega
      rw [readSecs, foldlM_cons, addSec, sized_append]
      cases secReader m s.1 with
      | error => rfl
      | ok reader => exact congrArg (whole reader s.2 >>= ·) (funext fun m => ih m hfuel)

/-- Sections are read in turn, each from its own bytes and from all of them. So one that counts data
is accepted only if it is empty, for nothing of it is read. -/
theorem Module.ofBytes_frame (v w x y : UInt8) (ss : List (UInt8 × Bytes)) :
  Module.ofBytes (magic ++ [v, w, x, y] ++ frame ss) = ss.foldlM addSec {} ∧
  ∀ m bs, addSec m (12, bs) = if bs = [] then .ok { m with hasDataCount := true } else
      .error (.unreadable "bytes left over") := by
  constructor
  · rw [Module.ofBytes, if_pos (by rfl)]
    exact readSecs_frame _ (by simp; omega)
  · intro m bs
    cases bs <;> rfl

end Retarget.Wasm
