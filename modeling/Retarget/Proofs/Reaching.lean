import Retarget.Proofs.Entry
import Retarget.Proofs.Fixpoint

/-!
# Reaching definitions

A walk through a function starts at the first block, executes the instructions of a block in turn
and then follows any edge. Its history lists what has been entered and executed, the latest first.

The analysis is right about every walk: the definition it gives for a register is the last write, or
a block since whose entry there was none. Where the definition of `y` is `m`, and that of `x` is the
same as at `m`, then `x` has not been written since `m`.
-/

namespace Retarget.IR
open List
variable {post pre' : List InsId}

/-- A block is entered, or an instruction executed. -/
inductive Waypoint where
  | enter (b : BlkId)
  | exec (i : InsId)
  deriving DecidableEq

/-- What has happened so far, the latest first. -/
abbrev History := List Waypoint

namespace Fn

/-- The instruction `i` stands in `b` after the instructions `pre`. -/
def At (f : Fn) (b : BlkId) (pre : List InsId) (i : InsId) : Prop :=
  ∃ post, (f.blk b).code = pre ++ i :: post

/-- The history leads from the start of `first` to the place in `b` after the instructions `pre`. -/
inductive Walk (f : Fn) (first : BlkId) : History → BlkId → List InsId → Prop where
  | start : Walk f first [.enter first] first []
  | exec {h : History} {b : BlkId} {pre : List InsId} {i : InsId} (walk : Walk f first h b pre)
      (hi : f.At b pre i) : Walk f first (.exec i :: h) b (pre ++ [i])
  | goto {h : History} {b c : BlkId} (walk : Walk f first h b (f.blk b).code)
      (hc : c ∈ (f.blk b).succs) : Walk f first (.enter c :: h) c []

/-- A function whose edges are consistent and whose blocks can all be reached. -/
structure Connected (f : Fn) (first : BlkId) : Prop where
  head : f.order.head? = some first
  nodup : f.order.Nodup
  lt : ∀ b : Nat, b ∈ f.order → b < f.blks.size
  inside : ∀ b ∈ f.order, ∀ s ∈ (f.blk b).succs, s ∈ f.order
  paired : Paired f
  reached : ∀ b ∈ f.order, Relation.ReflTransGen (fun a c => c ∈ (f.blk a).succs) first b
  once : (f.order.flatMap fun b => (f.blk b).code).Nodup
  sites : ∀ b ∈ f.order, ∀ i : Nat, i ∈ (f.blk b).code → i < f.code.size
  regs : ∀ b ∈ f.order, ∀ i ∈ (f.blk b).code, ∀ r : Nat, .reg r ∈ (f.ins i).args → r < f.regs.size

def Keeps (f : Fn) (r : RegId) (h : History) : Prop := ∀ i, .exec i ∈ h → r ∉ (f.ins i).written

/-- The definition accounts for what the register holds after the history: it is the instruction
that wrote it last, or a block since whose last entry it has not been written. -/
def Accounts (f : Fn) (h : History) (r : RegId) : Def → Prop
  | .ins i => ∃ later earlier, h = later ++ .exec i :: earlier ∧ r ∈ (f.ins i).written ∧
      f.Keeps r later
  | .blk b => ∃ later earlier, h = later ++ .enter b :: earlier ∧ .enter b ∉ later ∧ f.Keeps r later
  | _ => False

/-- The register has been written, or counts as written from the start. -/
def Carries (f : Fn) (h : History) (r : RegId) : Prop :=
  r ∈ f.exposed ∨ ∃ i, .exec i ∈ h ∧ r ∈ (f.ins i).written

end Fn

section
variable {f : Fn} {first b c : BlkId} {h later earlier : History} {pre : List InsId}
  {i : InsId} {r : RegId} {d : Def} {w : Waypoint}

lemma Fn.At.mem (hi : f.At b pre i) : i ∈ (f.blk b).code := by
  obtain ⟨post, hcode⟩ := hi
  simp [hcode]

lemma Fn.Connected.first_mem (hf : f.Connected first) : first ∈ f.order := mem_of_head? hf.head

lemma Fn.Connected.at_unique (hf : f.Connected first) (hb : b ∈ f.order) (hc : c ∈ f.order)
  (hi : f.At b pre i) (hi' : f.At c pre' i) : b = c ∧ pre = pre' := by
  obtain rfl : b = c := eq_of_mem_of_nodup_flatMap hf.once hb hc hi.mem hi'.mem
  obtain ⟨post, hcode⟩ := hi
  obtain ⟨post', hcode'⟩ := hi'
  have hnd : (f.blk b).code.Nodup := (nodup_flatMap.1 hf.once).1 b hb
  have hnot : i ∉ pre ++ post := by
    rw [hcode] at hnd
    exact (nodup_middle.1 hnd).notMem
  rw [mem_append, not_or] at hnot
  exact ⟨rfl, ((append_cons_inj_of_notMem hnot.1 hnot.2).1 (hcode.symm.trans hcode')).1⟩

/-! ## Walks -/

namespace Fn.Walk

lemma mem_order (hf : f.Connected first) (hw : f.Walk first h b pre) : b ∈ f.order := by
  induction hw with
  | start => exact hf.first_mem
  | exec _ _ ih => exact ih
  | goto _ hc ih => exact hf.inside _ ih _ hc

lemma exec_mem (hw : f.Walk first h b pre) : ∀ i ∈ pre, .exec i ∈ h := by
  induction hw with
  | start => simp
  | exec _ _ ih =>
    intro j hj
    rcases mem_append.1 hj with hj | hj
    · exact .tail _ (ih j hj)
    · obtain rfl := mem_singleton.1 hj
      exact .head _
  | goto _ _ _ => simp

lemma suffix (hw : f.Walk first (later ++ w :: earlier) b pre) :
  ∃ c pre', f.Walk first (w :: earlier) c pre' := by
  induction later generalizing b pre with
  | nil => exact ⟨b, pre, hw⟩
  | cons v later ih =>
    generalize htail : later ++ w :: earlier = h at ih
    rw [cons_append, htail] at hw
    cases hw with
    | start => simp at htail
    | exec hw _ | goto hw _ => exact ih hw

/-- Where an instruction was executed, the walk up to then leads to its place. -/
lemma before_exec (hw : f.Walk first (later ++ .exec i :: earlier) b pre) :
  ∃ c pre', f.Walk first earlier c pre' ∧ f.At c pre' i := by
  obtain ⟨c, pre', hw⟩ := hw.suffix
  cases hw with
  | exec hw hi => exact ⟨_, _, hw, hi⟩

lemma place_unique (hf : f.Connected first) {h' : History} (hw : f.Walk first (w :: h) b pre)
  (hw' : f.Walk first (w :: h') c pre') : b = c ∧ pre = pre' := by
  cases hw with
  | exec hw hi =>
    cases hw' with
    | exec hw' hi' =>
      obtain ⟨rfl, rfl⟩ := hf.at_unique (hw.mem_order hf) (hw'.mem_order hf) hi hi'
      exact ⟨rfl, rfl⟩
  | start | goto _ _ => cases hw' <;> exact ⟨rfl, rfl⟩

/-- A walk can be continued like another one that passed the same place. -/
lemma splice (hf : f.Connected first) {old : History}
  (hw : f.Walk first (later ++ w :: earlier) b pre) (hold : f.Walk first (w :: old) c pre') :
  f.Walk first (later ++ w :: old) b pre := by
  induction later generalizing b pre with
  | nil =>
    obtain ⟨rfl, rfl⟩ := hw.place_unique hf hold
    exact hold
  | cons v later ih =>
    rw [cons_append] at hw ⊢
    generalize hh : later ++ w :: earlier = h at hw
    cases hw with
    | start => simp at hh
    | exec hw hi => exact .exec (ih (hh ▸ hw)) hi
    | goto hw hc => exact .goto (ih (hh ▸ hw)) hc

end Fn.Walk

lemma Fn.Connected.exists_walk (hf : f.Connected first) (hb : b ∈ f.order)
  (hcode : (f.blk b).code = pre ++ post) : ∃ h, f.Walk first h b pre := by
  -- Along a block, given a walk to its start.
  have along : ∀ {c : BlkId} {pre post : List InsId} {h0 : History},
      f.Walk first h0 c [] → (f.blk c).code = pre ++ post → ∃ h, f.Walk first h c pre := by
    intro c pre post h0 hw
    induction pre using List.reverseRecOn generalizing post with
    | nil => exact fun _ => ⟨h0, hw⟩
    | append_singleton pre i ih =>
      intro hcode
      rw [append_assoc] at hcode
      obtain ⟨h, hwalk⟩ := ih hcode
      exact ⟨_, .exec hwalk ⟨post, hcode⟩⟩
  obtain ⟨h0, hw⟩ : ∃ h0, f.Walk first h0 b [] := by
    have hreach := hf.reached b hb
    clear hcode hb
    induction hreach with
    | refl => exact ⟨_, .start⟩
    | tail _ hedge ih =>
      obtain ⟨h0, hw⟩ := ih
      obtain ⟨h, hwalk⟩ := along hw (append_nil _).symm
      exact ⟨_, .goto hwalk hedge⟩
  exact along hw hcode

/-! ## Definitions along walks -/

lemma Fn.Keeps.cons (hk : f.Keeps r h)
  (hw : ∀ i, w = .exec i → r ∉ (f.ins i).written) : f.Keeps r (w :: h) := by
  intro i hi
  rcases mem_cons.1 hi with hi | hi
  · exact hw i hi.symm
  · exact hk i hi

lemma Fn.keeps_nil (f : Fn) (r : RegId) : f.Keeps r [] := by
  intro i hi
  cases hi

/-- It does not matter since which entry to a block a register has not been written. -/
lemma Fn.accounts_blk (later earlier : History) (hk : f.Keeps r later) :
  f.Accounts (later ++ .enter b :: earlier) r (.blk b) := by
  by_cases hin : .enter b ∈ later
  · obtain ⟨later', rest, hlater, hnot⟩ := eq_append_cons_of_mem hin
    refine ⟨later', rest ++ .enter b :: earlier, ?_, hnot, fun i hi => hk i ?_⟩
    · rw [hlater, append_assoc, cons_append]
    · rw [hlater]
      exact mem_append_left _ hi
  · exact ⟨later, earlier, rfl, hin, hk⟩

lemma Fn.Accounts.cons (ha : f.Accounts h r d)
  (hw : ∀ i, w = .exec i → r ∉ (f.ins i).written) : f.Accounts (w :: h) r d := by
  cases d with
  | ins j =>
    obtain ⟨later, earlier, rfl, hwrite, hk⟩ := ha
    exact ⟨w :: later, earlier, rfl, hwrite, hk.cons hw⟩
  | blk b =>
    obtain ⟨later, earlier, rfl, -, hk⟩ := ha
    exact accounts_blk (w :: later) earlier (hk.cons hw)
  | unknown | absent => exact ha

lemma Fn.Carries.cons (hc : f.Carries h r) (w : Waypoint) : f.Carries (w :: h) r := by
  rcases hc with hc | ⟨i, hi, hwrite⟩
  · exact .inl hc
  · exact .inr ⟨i, .tail _ hi, hwrite⟩

lemma Fn.Walk.carries_of_read (hf : f.Connected first) (hw : f.Walk first h b pre)
  (hi : f.At b pre i) (hread : r ∈ (f.ins i).read) : f.Carries h r := by
  by_cases hwr : ∃ j ∈ pre, r ∈ (f.ins j).written
  · obtain ⟨j, hj, hwrite⟩ := hwr
    exact .inr ⟨j, hw.exec_mem j hj, hwrite⟩
  · obtain ⟨post, hcode⟩ := hi
    have hb := hw.mem_order hf
    exact .inl (mem_exposed hb (hf.lt b hb) hcode hread fun j hj hwrite => hwr ⟨j, hj, hwrite⟩)

lemma Fn.Walk.accounts (hf : f.Connected first) {entry : BlkId → DefMap}
  (hs : Solved f first entry) (hr : r < f.regs.size) (hw : f.Walk first h b pre)
  (hc : f.Carries h r) :
  ∃ d, (defsThru f pre (entry b)).find r = some d ∧ f.Accounts h r d := by
  induction hw with
  | start =>
    rcases hc with hc | ⟨i, hi, -⟩
    · exact ⟨.blk first, hs.start r hr hc, accounts_blk [] _ (f.keeps_nil r)⟩
    · simp at hi
  | @exec h b pre i hw hi ih =>
    rw [defsThru_concat, find_defsAfter]
    by_cases hwrite : r ∈ (f.ins i).written
    · rw [if_pos hwrite]
      exact ⟨.ins i, rfl, [], h, rfl, hwrite, f.keeps_nil r⟩
    · rw [if_neg hwrite]
      have hc' : f.Carries h r := by
        rcases hc with hc | ⟨j, hj, hwrite'⟩
        · exact .inl hc
        · rcases mem_cons.1 hj with hj | hj
          · cases hj
            exact absurd hwrite' hwrite
          · exact .inr ⟨j, hj, hwrite'⟩
      obtain ⟨d, hd, ha⟩ := ih hc'
      exact ⟨d, hd, ha.cons fun j hj => by cases hj; exact hwrite⟩
  | @goto h b c hw hedge ih =>
    have hc' : f.Carries h r := by
      rcases hc with hc | ⟨j, hj, hwrite⟩
      · exact .inl hc
      · exact .inr ⟨j, (mem_cons.1 hj).resolve_left (by simp), hwrite⟩
    obtain ⟨d, hd, ha⟩ := ih hc'
    -- The definition arrives as it is, or meets others at the block just entered.
    rcases hs.flow b (hw.mem_order hf) c hedge r d hr hd with hfind | hfind
    · exact ⟨d, hfind, ha.cons nofun⟩
    · exact ⟨.blk c, hfind, accounts_blk [] _ (f.keeps_nil r)⟩

/-! ## What has not been written since -/

/-- At the place in `b` after `pre` the solution gives the definition `d` for the register, and
every walk to it carries the register. -/
structure Fn.Known (f : Fn) (first : BlkId) (entry : BlkId → DefMap) (b : BlkId)
    (pre : List InsId) (r : RegId) (d : Def) : Prop where
  lt : r < f.regs.size
  found : (defsThru f pre (entry b)).find r = some d
  carried : ∀ h, f.Walk first h b pre → f.Carries h r

def Def.waypoint? : Def → Option Waypoint
  | .ins i => some (.exec i)
  | .blk b => some (.enter b)
  | _ => none

lemma Fn.Accounts.exists_waypoint (ha : f.Accounts h r d) : ∃ w later earlier,
  d.waypoint? = some w ∧ h = later ++ w :: earlier ∧ f.Keeps r later := by
  cases d with
  | ins i =>
    obtain ⟨later, earlier, rfl, -, hk⟩ := ha
    exact ⟨.exec i, later, earlier, rfl, rfl, hk⟩
  | blk b =>
    obtain ⟨later, earlier, rfl, -, hk⟩ := ha
    exact ⟨.enter b, later, earlier, rfl, rfl, hk⟩
  | unknown | absent => exact ha.elim

lemma exists_first_passage {v : Waypoint} (hv : v ∈ h) :
  ∃ rest old, h = rest ++ v :: old ∧ v ∉ old := by
  obtain ⟨as, bs, hrev, hnot⟩ := eq_append_cons_of_mem (mem_reverse.2 hv)
  refine ⟨bs.reverse, as.reverse, ?_, by simpa using hnot⟩
  rw [← reverse_reverse h, hrev]
  simp

lemma Fn.Carries.append (hc : f.Carries earlier r) (later : History) :
  f.Carries (later ++ earlier) r := by
  rcases hc with hc | ⟨i, hi, hwrite⟩
  · exact .inl hc
  · exact .inr ⟨i, mem_append_right _ hi, hwrite⟩

namespace Fn.Known
variable {entry : BlkId → DefMap} {x y : RegId} {m : InsId}

section
variable (hf : f.Connected first) (hs : Solved f first entry)
include hf hs

lemma of_read (hb : b ∈ f.order) (hi : f.At b pre i) (hread : r ∈ (f.ins i).read) :
  ∃ d, f.Known first entry b pre r d := by
  have hr : r < f.regs.size := by
    obtain ⟨x, hx, hxr⟩ := mem_filterMap.1 hread
    cases x with
    | reg q =>
      cases hxr
      exact hf.regs b hb i hi.mem r (mem_of_mem_drop hx)
    | _ => cases hxr
  have hc : ∀ h, f.Walk first h b pre → f.Carries h r := fun h hw => hw.carries_of_read hf hi hread
  obtain ⟨h, hw⟩ := hf.exists_walk hb hi.choose_spec
  obtain ⟨d, hd, -⟩ := hw.accounts hf hs hr (hc h hw)
  exact ⟨d, hr, hd, hc⟩

lemma accounts (hk : f.Known first entry b pre r d) (hw : f.Walk first h b pre) :
  f.Accounts h r d := by
  obtain ⟨d', hd', ha⟩ := hw.accounts hf hs hk.lt (hk.carried h hw)
  obtain rfl : d' = d := Option.some.inj (hd'.symm.trans hk.found)
  exact ha

lemma of_ins (hy : f.Known first entry b pre y (.ins m)) (hb : b ∈ f.order)
  (hcode : (f.blk b).code = pre ++ post) (hc : c ∈ f.order) (hm : f.At c pre' m)
  (hx : f.Known first entry c pre' x d) : ∃ d', f.Known first entry b pre x d' := by
  -- Every walk to this place has come by `m`.
  have hcarried : ∀ h, f.Walk first h b pre → f.Carries h x := by
    intro h hw
    obtain ⟨later, earlier, rfl, -, -⟩ := hy.accounts hf hs hw
    obtain ⟨c', pre'', hwalk, hm'⟩ := hw.before_exec
    obtain ⟨rfl, rfl⟩ := hf.at_unique hc (hwalk.mem_order hf) hm hm'
    exact ((hx.carried earlier hwalk).cons (.exec m)).append later
  obtain ⟨h, hw⟩ := hf.exists_walk hb hcode
  obtain ⟨d', hd', -⟩ := hw.accounts hf hs hx.lt (hcarried h hw)
  exact ⟨d', hx.lt, hd', hcarried⟩

/-- Before its definition of `x` has come by for the first time, `m` is not executed. -/
lemma notMem_exec (hc : c ∈ f.order) (hm : f.At c pre' m) (hxm : f.Known first entry c pre' x d)
  {v : Waypoint} (hv : d.waypoint? = some v) {old : History} (hw : f.Walk first (v :: old) b pre)
  (hnot : v ∉ old) : .exec m ∉ v :: old := by
  intro hin
  obtain ⟨as, bs, hsplit, -⟩ := eq_append_cons_of_mem hin
  obtain ⟨c', pre'', hwalk, hm'⟩ := (hsplit ▸ hw).before_exec
  obtain ⟨rfl, rfl⟩ := hf.at_unique hc (hwalk.mem_order hf) hm hm'
  obtain ⟨w, as', bs', hw', rfl, -⟩ := (hxm.accounts hf hs hwalk).exists_waypoint
  obtain rfl : w = v := Option.some.inj (hw'.symm.trans hv)
  refine hnot ?_
  cases as with
  | nil | cons =>
    cases hsplit
    simp

/-- If `m` defines `y`, and `x` has the definition that it has at `m`, then neither `m` nor anything
after it has written `x`. -/
lemma keeps (hy : f.Known first entry b pre y (.ins m)) (hx : f.Known first entry b pre x d)
  (hc : c ∈ f.order) (hm : f.At c pre' m) (hxm : f.Known first entry c pre' x d)
  (hw : f.Walk first (later ++ .exec m :: earlier) b pre) (hkeep : f.Keeps y later)
  (hwrite : y ∈ (f.ins m).written) : f.Keeps x (later ++ [.exec m]) := by
  have hnotm : .exec m ∉ later := fun hin => hkeep m hin hwrite
  obtain ⟨w, later', earlier', hwd, hsplit, hk⟩ := (hx.accounts hf hs hw).exists_waypoint
  have hsplit' : (later ++ [.exec m]) ++ earlier = later' ++ w :: earlier' := by
    rw [← hsplit, append_assoc, singleton_append]
  rcases append_eq_append_iff.1 hsplit' with ⟨k, hlater', -⟩ | ⟨k, hlater, hk'⟩
  · exact fun i hi => hk i (hlater' ▸ mem_append_left _ hi)
  cases k with
  | nil =>
    rw [append_nil] at hlater
    exact hlater ▸ hk
  | cons v k =>
    exfalso
    obtain ⟨rfl, -⟩ : v = w ∧ k ++ earlier = earlier' := by simpa using hk'.symm
    -- Nothing from the last passage of `v` on is an execution of `m`.
    have hnot' : .exec m ∉ later' := by
      have hlater : later = later' ++ (v :: k).dropLast := by
        simpa using congrArg List.dropLast hlater
      exact fun hin => hnotm (hlater ▸ mem_append_left _ hin)
    -- Neither is anything up to its first passage.
    have hin : v ∈ later ++ .exec m :: earlier := by simp [hsplit]
    obtain ⟨rest, old, hfst, hnotv⟩ := exists_first_passage hin
    obtain ⟨c', pre'', hold⟩ := (hfst ▸ hw).suffix
    have hnotold := hxm.notMem_exec hf hs hc hm hwd hold hnotv
    -- So there is a walk to this place that never comes by `m`.
    have hspliced := (hsplit ▸ hw).splice hf hold
    obtain ⟨l, e, hh, -, -⟩ := hy.accounts hf hs hspliced
    have hin : .exec m ∈ later' ++ v :: old := by simp [hh]
    exact (mem_append.1 hin).elim hnot' hnotold

end
end Fn.Known
end

open Pass Fn
variable {d : Def} {f : Fn} {rest : List BlkId}

/-! ## Recording definitions -/

def recordedDef (m : DefMap) (x : Ins) (n : Nat) : Def :=
  match x.arg n with
  | .reg r => if n < x.op.defCount then .unknown else (m.find r).getD .unknown
  | _ => .unknown

def Ins.recorded (m : DefMap) (x : Ins) : Ins :=
  { x with defs := (List.range x.args.length).map (recordedDef m x) }

/-- The operand at this position reads this register. -/
def Ins.Reads (x : Ins) (n : Nat) (r : RegId) : Prop :=
  x.args[n]? = some (.reg r) ∧ x.op.defCount ≤ n

section
variable {x : Ins} {m : DefMap} {n : Nat} {r : RegId}

lemma Ins.Reads.mem_read (h : x.Reads n r) : r ∈ x.read := by
  refine mem_filterMap.2 ⟨.reg r, ?_, rfl⟩
  rw [mem_iff_getElem?]
  refine ⟨n - x.op.defCount, ?_⟩
  rw [getElem?_drop, Nat.add_sub_cancel' h.2]
  exact h.1

lemma Ins.Reads.arg_eq (h : x.Reads n r) : x.arg n = .reg r := by
  rw [Ins.arg, getD_eq_getElem?_getD, h.1, Option.getD_some]

lemma Ins.Reads.lt (h : x.Reads n r) : n < x.args.length := by
  obtain ⟨hlt, -⟩ := List.getElem?_eq_some_iff.1 h.1
  exact hlt

@[simp] lemma Ins.recorded_op (m : DefMap) (x : Ins) : (x.recorded m).op = x.op := rfl

@[simp] lemma Ins.recorded_written (m : DefMap) (x : Ins) :
  (x.recorded m).written = x.written := rfl

lemma Ins.argDef_recorded (h : n < x.args.length) :
  (x.recorded m).argDef n = recordedDef m x n := by
  simp [Ins.argDef, Ins.recorded, h]

lemma Ins.Reads.argDef_recorded (h : x.Reads n r) (hd : m.find r = some d) :
  (x.recorded m).argDef n = d := by
  rw [Ins.argDef_recorded h.lt]
  simp only [recordedDef, h.arg_eq, if_neg h.2.not_gt, hd, Option.getD_some]

/-- Where something is recorded, a register is read and the map has a definition for it. -/
lemma Ins.reads_of_argDef (hd : (x.recorded m).argDef n = d) (hne : d ≠ .unknown) :
  ∃ r, x.Reads n r ∧ m.find r = some d := by
  by_cases hn : n < x.args.length
  · rw [Ins.argDef_recorded hn] at hd
    unfold recordedDef at hd
    split at hd
    · rename_i r hr
      split at hd
      · exact absurd hd.symm hne
      · rename_i hle
        have harg : x.args[n]? = some (.reg r) := by
          simpa [Ins.arg, hn] using hr
        cases hfind : m.find r with
        | none =>
          rw [hfind] at hd
          exact absurd hd.symm hne
        | some e =>
          rw [hfind] at hd
          exact ⟨r, ⟨harg, not_lt.1 hle⟩, hfind.trans (congrArg some hd)⟩
    · exact absurd hd.symm hne
  · have hunknown : (x.recorded m).argDef n = .unknown := by
      simp [Ins.argDef, Ins.recorded, hn]
    exact absurd (hd.symm.trans hunknown) hne

lemma opndDefs_ok (h : ∀ r ∈ x.read, ∃ d, m.find r = some d) :
  opndDefs m x = .ok (x.recorded m).defs := by
  refine mapM_ok fun n hn => ?_
  have hlt : n < x.args.length := mem_range.1 hn
  unfold recordedDef
  cases hr : x.arg n with
  | reg r =>
    dsimp only
    by_cases hdef : n < x.op.defCount
    · rw [if_pos hdef, if_pos hdef]
    · have hread : x.Reads n r :=
        ⟨by simpa [Ins.arg, hlt] using hr, not_lt.1 hdef⟩
      obtain ⟨d, hd⟩ := h r hread.mem_read
      rw [if_neg hdef, if_neg hdef, hd]
      rfl
  | _ => rfl

end

/-! ## The record of a block -/

/-- What is read along a sequence of instructions has been recorded. -/
structure Recorded (f g : Fn) (is : List InsId) (m : DefMap) : Prop where
  frame : g = { f with code := g.code }
  size : g.code.size = f.code.size
  here : ∀ pre i post, is = pre ++ i :: post → g.ins i = (f.ins i).recorded (defsThru f pre m)
  elsewhere : ∀ i, i ∉ is → g.ins i = f.ins i

lemma recordDefs_ok {is : List InsId} {m : DefMap} (hnd : is.Nodup)
  (hlt : ∀ i : Nat, i ∈ is → i < f.code.size)
  (hread : ∀ pre i post, is = pre ++ i :: post → ∀ r ∈ (f.ins i).read, ∃ d,
    (defsThru f pre m).find r = some d) :
  ∃ g, (recordDefs is m).run f = .ok ((), g) ∧ Recorded f g is m := by
  induction is generalizing f m with
  | nil => exact ⟨f, rfl, rfl, rfl, fun pre i post h => by simp at h, fun _ _ => rfl⟩
  | cons i is ih =>
    have hi : i < f.code.size := hlt i (.head _)
    have hnot : i ∉ is := (nodup_cons.1 hnd).1
    generalize hf1 : f.setIns i ((f.ins i).recorded m) = f1
    have hself : f1.ins i = (f.ins i).recorded m := by rw [← hf1, ins_setIns_self _ hi]
    have hoth : ∀ j, j ≠ i → f1.ins j = f.ins j := fun j hj => by rw [← hf1, ins_setIns_ne _ hj]
    have hsize : f1.code.size = f.code.size := by rw [← hf1, code_size_setIns]
    have hmap : ∀ pre, (∀ j ∈ pre, j ∈ is) →
        defsThru f1 pre (defsAfter m i (f.ins i)) = defsThru f (i :: pre) m := by
      intro pre hpre
      refine defsThru_congr (fun j hj => ?_) _
      rw [hoth j fun hji => hnot (hji ▸ hpre j hj)]
    have hread1 : ∀ pre j post, is = pre ++ j :: post → ∀ r ∈ (f1.ins j).read,
        ∃ d, (defsThru f1 pre (defsAfter m i (f.ins i))).find r = some d := by
      rintro pre j post rfl r hr
      rw [hoth j fun hji => hnot (by simp [hji])] at hr
      rw [hmap pre fun k hk => mem_append_left _ hk]
      exact hread (i :: pre) j post rfl r hr
    obtain ⟨g, hrun, hrec⟩ := ih (nodup_cons.1 hnd).2
      (fun j hj => hsize ▸ hlt j (.tail _ hj)) hread1
    refine ⟨g, ?_, ?_, hrec.size.trans hsize, ?_, ?_⟩
    · have hdefs : opndDefs m (f.ins i) = .ok ((f.ins i).recorded m).defs :=
        opndDefs_ok (hread [] i is rfl)
      rw [recordDefs, run_get_bind]
      rw [run_bind_of_ok (run_attempt_ok.2 ⟨hdefs, rfl⟩), run_bind_of_ok (run_modify _)]
      have hset : f.setIns i { f.ins i with defs := ((f.ins i).recorded m).defs } = f1 := hf1
      rw [hset]
      exact hrun
    · rw [hrec.frame, ← hf1]
      rfl
    · intro pre j post hsplit
      cases pre with
      | nil =>
        cases hsplit
        rw [hrec.elsewhere _ hnot, hself]
        rfl
      | cons k pre =>
        cases hsplit
        rw [hrec.here pre j post rfl, hoth j fun hji => hnot (by simp [hji]),
          hmap pre fun k hk => mem_append_left _ hk]
    · intro j hj
      rw [mem_cons, not_or] at hj
      rw [hrec.elsewhere j hj.2, hoth j hj.1]

/-! ## The record of a function -/

/-- `g` is `f` with the definitions recorded for the blocks `bs`, given those at their start. -/
structure Annotated (f g : Fn) (entry : BlkId → DefMap) (bs : List BlkId) : Prop where
  frame : g = { f with code := g.code, blks := g.blks }
  codeSize : g.code.size = f.code.size
  blksSize : g.blks.size = f.blks.size
  blk : ∀ b ∈ bs, g.blk b = { f.blk b with defsIn := entry b }
  other : ∀ b, b ∉ bs → g.blk b = f.blk b
  ins : ∀ b ∈ bs, ∀ pre i, f.At b pre i → g.ins i = (f.ins i).recorded (defsThru f pre (entry b))
  rest : ∀ i, (∀ b ∈ bs, i ∉ (f.blk b).code) → g.ins i = f.ins i

lemma Annotated.refl (f : Fn) (entry : BlkId → DefMap) : Annotated f f entry [] where
  frame := rfl
  codeSize := rfl
  blksSize := rfl
  blk := by simp
  other _ _ := rfl
  ins := by simp
  rest _ _ := rfl

section
variable {g : Fn} {first : BlkId} {entry : BlkId → DefMap} {bs : List BlkId} {b : BlkId}

lemma Annotated.cons (hf : f.Connected first) (hs : Solved f first entry)
  (h : Annotated f g entry bs) (hbs : ∀ c ∈ bs, c ∈ f.order) (hb : b ∈ f.order) (hnot : b ∉ bs) :
  ∃ g', (recordDefs (f.blk b).code (entry b)).run
      (g.modBlk b fun x => { x with defsIn := entry b }) = .ok ((), g') ∧
      Annotated f g' entry (b :: bs) := by
  generalize hg1 : g.modBlk b (fun x => { x with defsIn := entry b }) = g1
  have hins : ∀ i ∈ (f.blk b).code, g1.ins i = f.ins i := by
    intro i hi
    rw [← hg1]
    refine h.rest i fun c hc hic => hnot ?_
    rw [eq_of_mem_of_nodup_flatMap hf.once hb (hbs c hc) hi hic]
    exact hc
  have hmap : ∀ pre i post, (f.blk b).code = pre ++ i :: post →
      defsThru g1 pre (entry b) = defsThru f pre (entry b) := fun pre i post hcode =>
    defsThru_congr (fun j hj => by rw [hins j (hcode ▸ mem_append_left _ hj)]) _
  have hsize : g1.code.size = f.code.size := by rw [← hg1, code_modBlk, h.codeSize]
  obtain ⟨g', hrun, hrec⟩ : ∃ g', (recordDefs (f.blk b).code (entry b)).run g1 = .ok ((), g') ∧
      Recorded g1 g' (f.blk b).code (entry b) := by
    refine recordDefs_ok ((nodup_flatMap.1 hf.once).1 b hb)
      (fun i hi => hsize ▸ hf.sites b hb i hi) fun pre i post hcode r hr => ?_
    have hi : f.At b pre i := ⟨post, hcode⟩
    rw [hmap pre i post hcode]
    rw [hins i hi.mem] at hr
    obtain ⟨d, hd⟩ := Fn.Known.of_read hf hs hb hi hr
    exact ⟨d, hd.found⟩
  have hbks : g'.blks = g1.blks := by rw [hrec.frame]
  have hblk : ∀ c, g'.blk c = g1.blk c := fun c => by rw [Fn.blk, Fn.blk, hbks]
  refine ⟨g', hrun, ?_, ?_, ?_, ?_, ?_, ?_, ?_⟩
  · rw [hrec.frame, ← hg1, h.frame]
    rfl
  · rw [hrec.size, hsize]
  · rw [hbks, ← hg1, blks_size_modBlk, h.blksSize]
  · intro c hc
    rw [hblk, ← hg1]
    by_cases hcb : c = b
    · subst hcb
      rw [blk_mod_self _ (h.blksSize ▸ hf.lt c hb), h.other c hnot]
    · rw [blk_mod_ne _ hcb, h.blk c ((mem_cons.1 hc).resolve_left hcb)]
  · intro c hc
    rw [mem_cons, not_or] at hc
    rw [hblk, ← hg1, blk_mod_ne _ hc.1, h.other c hc.2]
  · intro c hc pre i hi
    by_cases hcb : c = b
    · subst hcb
      obtain ⟨post, hcode⟩ := hi
      rw [hrec.here pre i post hcode, hmap pre i post hcode, hins i (by simp [hcode])]
    · have hc' := (mem_cons.1 hc).resolve_left hcb
      rw [hrec.elsewhere i fun hin =>
        hcb (eq_of_mem_of_nodup_flatMap hf.once (hbs c hc') hb hi.mem hin), ← hg1,
        ins_modBlk, h.ins c hc' pre i hi]
  · intro i hi
    rw [hrec.elsewhere i (hi b (.head _)), ← hg1, ins_modBlk,
      h.rest i fun c hc => hi c (.tail _ hc)]

lemma Fn.Connected.preds_ne_nil (hf : f.Connected first) (hb : b ∈ f.order) (hne : b ≠ first) :
  (f.blk b).preds ≠ [] := by
  rcases Relation.ReflTransGen.cases_tail (hf.reached b hb) with rfl | ⟨a, -, hedge⟩
  · exact absurd rfl hne
  · intro hnil
    have hcnt := hf.paired a b
    rw [hnil] at hcnt
    exact (count_pos_iff.2 hedge).ne' hcnt.symm

def recordBlk (f : Fn) (rest : List BlkId) (entry : BlkId → DefMap) (b : BlkId) :
  Pass (ForInStep PUnit) := do
  Pass.require (!(rest.contains b && (f.blk b).preds.isEmpty)) "unreachable block"
  modify (·.modBlk b fun x => { x with defsIn := entry b })
  recordDefs (f.blk b).code (entry b)
  return .yield ⟨⟩

section
variable (hf : f.Connected first) (hs : Solved f first entry) (hord : f.order = first :: rest)
include hf hs hord

lemma recordBlk_ok (h : Annotated f g entry bs)
  (hbs : ∀ c ∈ bs, c ∈ f.order) (hb : b ∈ f.order) (hnot : b ∉ bs) : ∃ g',
  (recordBlk f rest entry b).run g = .ok (.yield ⟨⟩, g') ∧ Annotated f g' entry (b :: bs) := by
  obtain ⟨g', hrec, hann⟩ := h.cons hf hs hbs hb hnot
  have hpreds : !(rest.contains b && (f.blk b).preds.isEmpty) := by
    have hnd := hf.nodup
    rw [hord, nodup_cons] at hnd
    by_cases hrest : b ∈ rest
    · have hne := hf.preds_ne_nil hb fun hbf => hnd.1 (hbf ▸ hrest)
      simp [hne]
    · simp [hrest]
  refine ⟨g', ?_, hann⟩
  unfold recordBlk
  rw [run_bind_of_ok (run_require hpreds), run_bind_of_ok (run_modify _), run_bind_of_ok hrec]
  rfl

lemma recordBlks_ok {done : List BlkId} (h : Annotated f g entry done)
  (hbs : ∀ b ∈ bs ++ done, b ∈ f.order) (hnd : (bs ++ done).Nodup) :
  ∃ g', (forIn bs PUnit.unit fun b _ => recordBlk f rest entry b : Pass PUnit).run g =
      .ok ((), g') ∧ Annotated f g' entry (bs.reverse ++ done) := by
  induction bs generalizing g done with
  | nil => exact ⟨g, rfl, h⟩
  | cons b bs ih =>
    have hb : b ∈ f.order := hbs b (by simp)
    have hmiddle : (bs ++ b :: done).Perm (b :: (bs ++ done)) := perm_middle
    have hnot : b ∉ done := fun hin => (nodup_cons.1 hnd).1 (mem_append_right _ hin)
    obtain ⟨g1, hrun1, h1⟩ := recordBlk_ok hf hs hord h
      (fun c hc => hbs c (mem_append_right _ hc)) hb hnot
    obtain ⟨g', hrun, h'⟩ := ih h1 (fun c hc => hbs c (hmiddle.subset hc)) (hmiddle.nodup_iff.2 hnd)
    refine ⟨g', (run_forIn_cons hrun1).trans hrun, ?_⟩
    rw [reverse_cons, append_assoc]
    exact h'

end

lemma Annotated.of_mem_iff {cs : List BlkId} (h : Annotated f g entry bs)
  (hmem : ∀ b, b ∈ bs ↔ b ∈ cs) : Annotated f g entry cs where
  frame := h.frame
  codeSize := h.codeSize
  blksSize := h.blksSize
  blk b hb := h.blk b ((hmem b).2 hb)
  other b hb := h.other b fun hin => hb ((hmem b).1 hin)
  ins b hb := h.ins b ((hmem b).2 hb)
  rest i hi := h.rest i fun b hb => hi b ((hmem b).1 hb)

end

/-- The analysis succeeds and records what the loop has found. -/
lemma reaching_ok {first : BlkId} (hf : f.Connected first) :
  ∃ g, reaching.run f = .ok ((), g) ∧ Annotated f g (f.entryDefs first) f.order := by
  have hs := (solveReaching_solved hf.lt hf.nodup hf.inside hf.first_mem).2
  obtain ⟨rest, hord⟩ := head?_eq_some_iff.1 hf.head
  obtain ⟨g, hrun, hann⟩ : ∃ g, (forIn f.order PUnit.unit fun b _ =>
      recordBlk f rest (f.entryDefs first) b : Pass PUnit).run f = .ok ((), g) ∧
      Annotated f g (f.entryDefs first) (f.order.reverse ++ []) :=
    recordBlks_ok hf hs hord (.refl f _) (fun b hb => by simpa using hb) (by simpa using hf.nodup)
  refine ⟨g, ?_, hann.of_mem_iff fun b => by simp⟩
  rw [reaching, run_get_bind]
  simp only [hord]
  rw [← hord, run_bind_of_ok (run_forIn_same fun b hb => ?_)]
  · exact run_bind_of_ok hrun
  · -- All successors are among the blocks.
    rw [run_bind_of_ok (run_forIn_same fun s hs => ?_)]
    · rfl
    · have hin : (!f.order.contains s) = false := by simpa using hf.inside b hb s hs
      rw [hin]
      rfl

/-! ## Executions -/

/-- An execution: the history of a walk, and the state at its end. -/
inductive Fn.Run {σ : Type} (f : Fn) (first : BlkId) (step : InsId → σ → σ → Prop) :
    History → BlkId → List InsId → σ → Prop where
  | start (s : σ) : Fn.Run f first step [.enter first] first [] s
  | exec {h : History} {b : BlkId} {pre : List InsId} {i : InsId} {s s' : σ}
      (run : Fn.Run f first step h b pre s) (hi : f.At b pre i) (hs : step i s s') :
      Fn.Run f first step (.exec i :: h) b (pre ++ [i]) s'
  | goto {h : History} {b c : BlkId} {s : σ} (run : Fn.Run f first step h b (f.blk b).code s)
      (hc : c ∈ (f.blk b).succs) : Fn.Run f first step (.enter c :: h) c [] s

namespace Fn.Run
variable {σ γ : Type} {first b : BlkId} {step : InsId → σ → σ → Prop}
  {h later earlier : History} {pre : List InsId} {s : σ} {m : InsId}

lemma walk (hr : f.Run first step h b pre s) : f.Walk first h b pre := by
  induction hr with
  | start => exact .start
  | exec _ hi _ ih => exact .exec ih hi
  | goto _ hc ih => exact .goto ih hc

/-- Where an instruction was executed, the execution led to its place. What the later instructions
do not touch is still as it was after it. -/
lemma before_exec (hr : f.Run first step (later ++ .exec m :: earlier) b pre s)
  (φ : σ → γ) (hlater : ∀ i t t', .exec i ∈ later → step i t t' → φ t' = φ t) : ∃ c pre' s1 s2,
  f.Run first step earlier c pre' s1 ∧ f.At c pre' m ∧ step m s1 s2 ∧ φ s = φ s2 := by
  induction later generalizing b pre s with
  | nil =>
    cases hr with
    | exec hr hi hs => exact ⟨_, _, _, _, hr, hi, hs, rfl⟩
  | cons w later ih =>
    have hrest := fun i t t' hi => hlater i t t' (.tail _ hi)
    generalize htail : later ++ .exec m :: earlier = h at ih
    rw [cons_append, htail] at hr
    cases hr with
    | start => simp at htail
    | exec hr _ hs =>
      obtain ⟨c, pre', s1, s2, hrun, hm, hstep, heq⟩ := ih hr hrest
      exact ⟨c, pre', s1, s2, hrun, hm, hstep, (hlater _ _ _ (.head _) hs).trans heq⟩
    | goto hr _ => exact ih hr hrest

end Fn.Run

/-! ## Moves -/

/-- What is known of the registers after an instruction without knowing what it computes: only
registers that it writes change, and a move copies the register that it reads. -/
structure Fn.Moves {V : Type} (f : Fn) (i : InsId) (s s' : RegId → V) : Prop where
  same : ∀ r, r ∉ (f.ins i).written → s' r = s r
  copy : ∀ y x, (f.ins i).op = .mov → y ∈ (f.ins i).written → (f.ins i).Reads 1 x → s' y = s x

/-- The definitions recorded for the place in `b` after `pre`. -/
def Fn.defsBefore (f : Fn) (b : BlkId) (pre : List InsId) : DefMap :=
  defsThru f pre (f.blk b).defsIn

section
variable {f g : Fn} {first b : BlkId} {entry : BlkId → DefMap} {pre : List InsId} {i : InsId}
  {n : Nat} {r : RegId}

lemma Annotated.written (h : Annotated f g entry f.order) (hb : b ∈ f.order)
  (hi : f.At b pre i) : (g.ins i).written = (f.ins i).written := by
  rw [h.ins b hb pre i hi, Ins.recorded_written]

lemma Fn.At.of_mem_pre {j : InsId} (hi : f.At b pre i) (hj : j ∈ pre) : ∃ pre', f.At b pre' j := by
  obtain ⟨post, hcode⟩ := hi
  obtain ⟨as, bs, rfl⟩ := append_of_mem hj
  exact ⟨as, bs ++ i :: post, by simpa using hcode⟩

lemma Annotated.defsBefore (h : Annotated f g entry f.order) (hb : b ∈ f.order)
  (hi : f.At b pre i) : g.defsBefore b pre = defsThru f pre (entry b) := by
  rw [Fn.defsBefore, h.blk b hb]
  refine defsThru_congr (fun j hj => ?_) _
  obtain ⟨pre', hj'⟩ := hi.of_mem_pre hj
  exact h.written hb hj'

lemma Annotated.known (hf : f.Connected first) (hs : Solved f first entry)
  (h : Annotated f g entry f.order) (hb : b ∈ f.order) (hi : f.At b pre i)
  (hr : (f.ins i).Reads n r) : f.Known first entry b pre r ((g.ins i).argDef n) := by
  obtain ⟨d, hd⟩ := Fn.Known.of_read hf hs hb hi hr.mem_read
  rw [h.ins b hb pre i hi, hr.argDef_recorded hd.found]
  exact hd

end

/-! ## A loop that reads what was moved before it -/

/-- Edges are in step with each other if they are within the table of blocks. -/
lemma paired_of_blks (hpair : ∀ a < f.blks.size, ∀ b < f.blks.size,
    (f.blk b).preds.count a = (f.blk a).succs.count b)
  (hin : ∀ x ∈ f.blks.toList, ∀ b ∈ x.succs ++ x.preds, b < f.blks.size) : Paired f := by
  have hmem : ∀ a, ∀ b ∈ (f.blk a).succs ++ (f.blk a).preds, b < f.blks.size := by
    intro a
    by_cases ha : a < f.blks.size
    · exact hin _ (by simp [Fn.blk, ha])
    · rw [Fn.blk_eq_default (not_lt.1 ha)]
      intro b hb
      cases hb
  intro a b
  by_cases ha : a < f.blks.size
  · by_cases hb : b < f.blks.size
    · exact hpair a ha b hb
    · have hout : b ∉ (f.blk a).succs := fun hin' => hb (hmem a b (mem_append_left _ hin'))
      rw [Fn.blk_eq_default (not_lt.1 hb), count_eq_zero_of_not_mem hout]
      rfl
  · have hout : a ∉ (f.blk b).preds := fun hin' => ha (hmem b a (mem_append_right _ hin'))
    rw [Fn.blk_eq_default (not_lt.1 ha), count_eq_zero_of_not_mem hout]
    rfl

lemma regs_of_args (h : ∀ b ∈ f.order, ∀ i ∈ (f.blk b).code, ∀ x ∈ (f.ins i).args,
    ∀ r ∈ x.reg?, r < f.regs.size) : ∀ b ∈ f.order, ∀ i ∈ (f.blk b).code, ∀ r,
  .reg r ∈ (f.ins i).args → r < f.regs.size :=
  fun b hb i hi r hr => h b hb i hi _ hr r rfl

lemma calls_of_none (h : ∀ b ∈ f.order, ∀ i ∈ (f.blk b).code, (f.ins i).op.isCall = false) :
  ∀ b ∈ f.order, ∀ i ∈ (f.blk b).code, (f.ins i).op.isCall → ∃ g, callee (f.ins i) = .ok g := by
  intro b hb i hi hcall
  rw [h b hb i hi] at hcall
  cases hcall

/-- Blocks that are found by following edges for some rounds are reached. -/
lemma reached_of_rounds {first : BlkId} (n : Nat) (h : ∀ b ∈ f.order,
    b ∈ (fun bs => bs ++ bs.flatMap fun a => (f.blk a).succs)^[n] [first]) :
  ∀ b ∈ f.order, Relation.ReflTransGen (fun a c => c ∈ (f.blk a).succs) first b := by
  refine fun b hb => ?_
  replace hb := h b hb
  clear h
  induction n generalizing b with
  | zero =>
    obtain rfl := mem_singleton.1 hb
    exact .refl
  | succ n ih =>
    rw [Function.iterate_succ_apply', mem_append, mem_flatMap] at hb
    rcases hb with hb | ⟨a, ha, hb⟩
    · exact ih b hb
    · exact (ih a ha).tail hb

/-- A register is moved before a loop, which adds up both. -/
def summing : Fn where
  name := "main"
  kind := .normal
  regs := #[{ name := "x", kind := .s32 }, { name := "y", kind := .s32 },
    { name := "z", kind := .s32 }]
  lits := #[.ofInt .s32 0, .ofInt .s32 10]
  code := #[.of .mov [.reg 0, .lit 0], .of .mov [.reg 1, .reg 0], .of .add [.reg 2, .reg 1, .reg 0],
    .of .blt [.reg 2, .lit 1, .blk 1], .of .ret []]
  blks := #[{ name := "start", code := [0, 1], succs := [1] },
    { name := "loop", code := [2, 3], succs := [1, 2], preds := [0, 1] },
    { name := "end", code := [4], preds := [1] }]
  order := [0, 1, 2]

lemma summing_connected : summing.Connected 0 where
  head := rfl
  nodup := by decide
  lt := by decide
  inside := by decide
  paired := paired_of_blks (by decide) (by decide)
  reached := reached_of_rounds 2 (by decide)
  once := by decide
  sites := by decide
  regs := regs_of_args (by decide)

/-- The analysis comes to an end and succeeds. Whenever an instruction is about to be executed, the
definition recorded for a register that it reads accounts for what the register holds. If that is a
move, and the definition recorded for the register moved is the same at the move and here, then both
registers hold the same value. -/
theorem reaching_sound {f : Fn} {first : BlkId} (hf : f.Connected first) :
  Settles f f.order (reachStart f first) (solveReaching f first) ∧
  ∃ g, reaching.run f = .ok ((), g) ∧
    (∀ h b pre i n r, f.Walk first h b pre → f.At b pre i → (f.ins i).Reads n r →
      f.Accounts h r ((g.ins i).argDef n)) ∧
    ∀ (V : Type) h b pre i n y m x (s : RegId → V), f.Run first f.Moves h b pre s →
      f.At b pre i → (f.ins i).Reads n y → (g.ins i).argDef n = .ins m →
      (f.ins m).op = .mov → (f.ins m).Reads 1 x →
      (g.defsBefore b pre).find x = some ((g.ins m).argDef 1) → s x = s y := by
  obtain ⟨hsettles, hs⟩ := solveReaching_solved hf.lt hf.nodup hf.inside hf.first_mem
  obtain ⟨g, hrun, hann⟩ := reaching_ok hf
  refine ⟨hsettles, g, hrun, ?_, ?_⟩
  · intro h b pre i n r hw hi hr
    exact (hann.known hf hs (hw.mem_order hf) hi hr).accounts hf hs hw
  · intro V h b pre i n y m x s hexec hi hy hm hmov hx hsame
    have hw := hexec.walk
    have hb := hw.mem_order hf
    have hkn := hm ▸ hann.known hf hs hb hi hy
    obtain ⟨later, earlier, rfl, hwrite, hkeep⟩ := hkn.accounts hf hs hw
    -- The move has been executed, and what is known there can be compared with what is known here.
    obtain ⟨c, pre', hw', hmat⟩ := hw.before_exec
    have hc := hw'.mem_order hf
    have hxm := hann.known hf hs hc hmat hx
    obtain ⟨post, hcode⟩ := hi
    obtain ⟨d, hxb⟩ := hkn.of_ins hf hs hb hcode hc hmat hxm
    rw [hann.defsBefore hb ⟨post, hcode⟩, hxb.found] at hsame
    obtain rfl : d = (g.ins m).argDef 1 := Option.some.inj hsame
    have hkeepx := hkn.keeps hf hs hxb hc hmat hxm hw hkeep hwrite
    obtain ⟨-, -, s₁, s₂, -, -, hstep, heq⟩ :=
      hexec.before_exec (fun t => (t x, t y)) fun j t t' hj ht => by
        rw [ht.same y (hkeep j hj), ht.same x (hkeepx j (List.mem_append_left _ hj))]
    have hcopy := hstep.copy y x hmov hwrite hx
    have hkept := hstep.same x (hkeepx m (List.mem_append_right _ (.head _)))
    obtain ⟨hx2, hy2⟩ := Prod.mk.inj heq
    rw [hx2, hy2, hkept, hcopy]

/-- In the loop, the register moved and the one it was moved to hold the same value. -/
theorem reaching_sound_summing : summing.Connected 0 ∧
  Settles summing summing.order (reachStart summing 0) (solveReaching summing 0) ∧
  ∃ g, reaching.run summing = .ok ((), g) ∧ (g.ins 2).argDef 1 = .ins 1 ∧
    (∀ h, summing.Walk 0 h 1 [] → summing.Accounts h 1 (.ins 1)) ∧
    ∀ (V : Type) h (s : RegId → V), summing.Run 0 summing.Moves h 1 [] s → s 0 = s 1 := by
  obtain ⟨hsettles, g, hrun, hsound, hmoved⟩ := reaching_sound summing_connected
  have hat : summing.At 1 [] 2 := ⟨[3], rfl⟩
  have hreads : (summing.ins 2).Reads 1 1 := ⟨rfl, by decide⟩
  have hrecord : ((reaching.run summing).toOption.map fun r =>
      ((r.2.ins 2).argDef 1, (r.2.ins 1).argDef 1, (r.2.defsBefore 1 []).find 0)) =
      some (.ins 1, .ins 0, some (.ins 0)) := by decide +kernel
  rw [hrun] at hrecord
  have hparts := Option.some.inj hrecord
  simp only [Prod.mk.injEq] at hparts
  obtain ⟨huse, hmove, hhere⟩ := hparts
  refine ⟨summing_connected, hsettles, g, hrun, huse, fun h hw => ?_, fun V h s hexec => ?_⟩
  · rw [← huse]
    exact hsound h 1 [] 2 1 1 hw hat hreads
  · exact hmoved V h 1 [] 2 1 1 1 0 s hexec hat hreads huse rfl ⟨rfl, by decide⟩
      (hhere.trans (congrArg some hmove.symm))

end Retarget.IR
