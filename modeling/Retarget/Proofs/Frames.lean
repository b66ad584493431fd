import Retarget.A32.Compile
import Retarget.Proofs.Passes
import Mathlib.Data.List.Nodup
import Mathlib.Data.List.Perm.Subperm
import Retarget.A64.Compile
import Retarget.X64.Compile
import Retarget.Proofs.Wrapping
import Mathlib.Algebra.Order.Ring.Int

/-!
# Stack frames

A frame is made by pushing registers and undone by popping them in reverse. Whatever happens to
other registers and to the free part of the frame in between, the saved registers are back
afterwards.
-/

namespace Retarget
open List hiding span

namespace Frames

inductive Reg where
  | gpr (n : Nat)
  | flt (n : Nat)
  deriving DecidableEq

/-- Registers, the stack pointer, and memory: an address gives the words that were stored together
there. -/
structure Machine where
  reg : Reg → Int
  sp : Int
  mem : Int → List Int

namespace Machine
variable (m : Machine)

def drop (n : Int) : Machine := { m with sp := m.sp - n }
def set (r : Reg) (v : Int) : Machine := { m with reg := Function.update m.reg r v }

def push (bytes : Int) (rs : List Reg) : Machine :=
  { m with sp := m.sp - bytes, mem := Function.update m.mem (m.sp - bytes) (rs.map m.reg) }

def pop (bytes : Int) (rs : List Reg) : Machine :=
  { m with sp := m.sp + bytes, reg := fun r => ((rs.zip (m.mem m.sp)).lookup r).getD (m.reg r) }

def save (off : Int) (r : Reg) : Machine :=
  { m with mem := Function.update m.mem (m.sp + off) [m.reg r] }

def load (off : Int) (r : Reg) : Machine := m.set r ((m.mem (m.sp + off)).headD 0)

end Machine

variable {T : Type} {k size room : Int} {act : T → Machine → Option Machine} {entry exit : List T}
  {rs rs' : List Reg}

/-- Instructions one after the other. The stack pointer has to stay a multiple of `k`. -/
def run (k : Int) (act : T → Machine → Option Machine) (ts : List T) (m : Machine) :
  Option Machine :=
  ts.foldlM (fun m t => (act t m).filter (k ∣ ·.sp)) m

lemma run_cons {t : T} {ts : List T} {m m' : Machine} (h : act t m = some m') (hk : k ∣ m'.sp) :
  run k act (t :: ts) m = run k act ts m' := by
  simp only [run, foldlM_cons, h, Option.filter_some, hk]
  rfl

lemma run_append (ts us : List T) (m : Machine) :
  run k act (ts ++ us) m = (run k act ts m).bind (run k act us) :=
  foldlM_append

/-- `entry` takes `size` bytes from the stack. When `exit` follows, after code that keeps the stack
pointer and all of these bytes but the lowest `room`, the registers `rs` are as they were. -/
def Restores (k : Int) (act : T → Machine → Option Machine) (entry exit : List T) (size room : Int)
  (rs : List Reg) : Prop :=
  ∀ m : Machine, k ∣ m.sp → ∃ m₁, run k act entry m = some m₁ ∧ m₁.sp = m.sp - size ∧
    m₁.reg = m.reg ∧ (∀ a, m.sp ≤ a → m₁.mem a = m.mem a) ∧
    ∀ m₂ : Machine, m₂.sp = m₁.sp → (∀ a, m₁.sp + room ≤ a → a < m.sp → m₂.mem a = m₁.mem a) →
      ∃ m₃, run k act exit m₂ = some m₃ ∧ m₃.sp = m.sp ∧ m₃.mem = m₂.mem ∧
        ∀ r ∈ rs, m₃.reg r = m.reg r

lemma Restores.mono (h : Restores k act entry exit size room rs) (hrs : rs' ⊆ rs) :
  Restores k act entry exit size room rs' := by
  intro m hm
  obtain ⟨m1, hrun, hsp, hreg, hmem, hback⟩ := h m hm
  refine ⟨m1, hrun, hsp, hreg, hmem, fun m2 hsp2 hmem2 => ?_⟩
  obtain ⟨m3, hrun3, hsp3, hmem3, hreg3⟩ := hback m2 hsp2 hmem2
  exact ⟨m3, hrun3, hsp3, hmem3, fun r hr => hreg3 r (hrs hr)⟩

lemma Restores.exit_append {u : T} (h : Restores k act entry exit size room rs)
  (hu : ∀ m, act u m = some m) : Restores k act entry (exit ++ [u]) size room rs := by
  intro m hm
  obtain ⟨m1, hrun, hsp, hreg, hmem, hback⟩ := h m hm
  refine ⟨m1, hrun, hsp, hreg, hmem, fun m2 hsp2 hmem2 => ?_⟩
  obtain ⟨m3, hrun3, hsp3, hrest⟩ := hback m2 hsp2 hmem2
  refine ⟨m3, ?_, hsp3, hrest⟩
  rw [run_append, hrun3]
  exact run_cons (hu m3) (hsp3 ▸ hm)

lemma run_drop {step : Nat → T} {sign : Int} {ks : List Nat} (m : Machine)
  (h : ∀ n ∈ ks, ∀ m, act (step n) m = some (m.drop (sign * n))) (hk : ∀ n ∈ ks, k ∣ n)
  (hm : k ∣ m.sp) : run k act (ks.map step) m = some (m.drop (sign * ks.sum)) := by
  induction ks generalizing m with
  | nil => simp [run, Machine.drop]
  | cons n ks ih =>
    rw [forall_mem_cons] at h hk
    have hm' : k ∣ (m.drop (sign * n)).sp := Int.dvd_sub hm (Int.dvd_mul_of_dvd_right hk.1)
    rw [map_cons, run_cons (h.1 m) hm', ih _ h.2 hk.2 hm']
    simp [Machine.drop, mul_add, sub_sub]

/-- Room is made and given back in parts. -/
lemma restores_drop {down up : Nat → T} {ks ls : List Nat} {n : Nat} (hsum : ks.sum = n)
  (hls : ls.Perm ks) (hdvd : k ∣ n) (hk : ∀ n ∈ ks, k ∣ n)
  (hdown : ∀ n ∈ ks, ∀ m, act (down n) m = some (m.drop (1 * n)))
  (hup : ∀ n ∈ ks, ∀ m, act (up n) m = some (m.drop (-1 * n))) :
  Restores k act (ks.map down) (ls.map up) n n [] := by
  intro m hm
  refine ⟨_, run_drop m hdown hk hm, by simp [Machine.drop, hsum], rfl, fun _ _ => rfl, ?_⟩
  intro m2 hsp _
  refine ⟨_, run_drop m2 (fun n hn => hup n (hls.subset hn)) (fun n hn => hk n (hls.subset hn))
    ?_, ?_, rfl, by simp⟩
  · rw [hsp, one_mul, hsum]
    exact Int.dvd_sub hm hdvd
  · rw [hls.sum_nat]
    simp [Machine.drop, hsp]

lemma lookup_zip_map (v : Reg → Int) (rs : List Reg) (r : Reg) :
  (rs.zip (rs.map v)).lookup r = if r ∈ rs then some (v r) else none := by
  induction rs with
  | nil => rfl
  | cons s rs ih =>
    rw [map_cons, zip_cons_cons, lookup_cons, ih]
    by_cases h : r = s
    · simp [h]
    · simp [h, beq_false_of_ne h]

/-- One more group of registers around a frame. -/
lemma Restores.nest {t u : T} {bytes : Int} {group : List Reg}
  (h : Restores k act entry exit size room rs) (hpush : ∀ m, act t m = some (m.push bytes group))
  (hpop : ∀ m, act u m = some (m.pop bytes group)) (hk : k ∣ bytes) (hpos : 0 < bytes)
  (hroom : room ≤ size) :
  Restores k act (t :: entry) (exit ++ [u]) (bytes + size) room (group ++ rs) := by
  intro m hm
  have hm' : k ∣ (m.push bytes group).sp := Int.dvd_sub hm hk
  obtain ⟨m1, hrun, hsp, hreg, hmem, hback⟩ := h _ hm'
  have hsp' : (m.push bytes group).sp = m.sp - bytes := rfl
  refine ⟨m1, (run_cons (hpush m) hm').trans hrun, by omega, hreg, fun a ha => ?_, ?_⟩
  · rw [hmem a (by omega)]
    exact Function.update_of_ne (by omega) _ _
  intro m2 hsp2 hmem2
  obtain ⟨m3, hrun3, hsp3, hmem3, hreg3⟩ := hback m2 hsp2 fun a ha hlt => hmem2 a ha (by omega)
  -- The inner frame lies below these words, and what comes in between keeps them.
  have hwords : m3.mem m3.sp = group.map m.reg := by
    rw [hmem3, hsp3, hmem2 _ (by omega) (by omega), hmem _ le_rfl]
    exact Function.update_self ..
  have hsp4 : (m3.pop bytes group).sp = m.sp := by
    simp only [Machine.pop]
    omega
  refine ⟨m3.pop bytes group, ?_, hsp4, hmem3, fun r hr => ?_⟩
  · rw [run_append, hrun3]
    exact run_cons (hpop m3) (hsp4 ▸ hm)
  · simp only [Machine.pop, hwords, lookup_zip_map]
    split_ifs with hgroup
    · rfl
    · exact hreg3 r ((mem_append.1 hr).resolve_left hgroup)

/-- Registers of a file, one at a time, around a frame. -/
lemma restores_each {push pop : Nat → T} (file : Nat → Reg) (ns : List Nat)
  (hpush : ∀ n m, act (push n) m = some (m.push 8 [file n]))
  (hpop : ∀ n m, act (pop n) m = some (m.pop 8 [file n])) (hroom : room ≤ size)
  (h : Restores 8 act entry exit size room rs) :
  Restores 8 act (ns.reverse.map push ++ entry) (exit ++ ns.map pop) (8 * ns.length + size) room
    (ns.map file ++ rs) := by
  induction ns using List.reverseRecOn with
  | nil => simpa using h
  | append_singleton ns n ih =>
    have hnest : Restores 8 act _ _ _ room ((ns ++ [n]).map file ++ rs) :=
      (ih.nest (hpush n) (hpop n) (by decide) (by decide) (by omega)).mono (by simp)
    have hsize : 8 * ((ns ++ [n]).length : Int) + size = 8 + (8 * ns.length + size) := by
      rw [length_append, length_singleton]
      omega
    rw [hsize]
    simpa using hnest

/-- Registers of a file are saved at offsets of the stack pointer. When they are loaded again, after
code that keeps these places, they are as they were. -/
lemma run_saves (file : Nat → Reg) {slots : List (Nat × Int)} {save load : Nat × Int → T}
  (hsave : ∀ p ∈ slots, ∀ m, act (save p) m = some (m.save p.2 (file p.1)))
  (hload : ∀ p ∈ slots, ∀ m, act (load p) m = some (m.load p.2 (file p.1)))
  (hslots : (slots.map Prod.snd).Nodup) {m : Machine} (hm : k ∣ m.sp) :
  ∃ m1, run k act (slots.map save) m = some m1 ∧ m1.sp = m.sp ∧ m1.reg = m.reg ∧
    (∀ a, (∀ p ∈ slots, a ≠ m.sp + p.2) → m1.mem a = m.mem a) ∧ ∀ m2, m2.sp = m.sp →
      (∀ p ∈ slots, m2.mem (m.sp + p.2) = m1.mem (m.sp + p.2)) →
      ∃ m3, run k act (slots.reverse.map load) m2 = some m3 ∧ m3.sp = m.sp ∧ m3.mem = m2.mem ∧
        ∀ p ∈ slots, m3.reg (file p.1) = m.reg (file p.1) := by
  induction slots generalizing m with
  | nil => exact ⟨m, rfl, rfl, rfl, fun _ _ => rfl, fun m2 hsp _ => ⟨m2, rfl, hsp, rfl, by simp⟩⟩
  | cons p slots ih =>
    rw [forall_mem_cons] at hsave hload
    rw [map_cons, nodup_cons] at hslots
    obtain ⟨m1, hrun, hsp, hreg, hout, hback⟩ :=
      ih (m := m.save p.2 (file p.1)) hsave.2 hload.2 hslots.2 hm
    refine ⟨m1, (run_cons (hsave.1 m) hm).trans hrun, hsp, hreg, fun a ha => ?_, ?_⟩
    · rw [forall_mem_cons] at ha
      exact (hout a ha.2).trans (Function.update_of_ne ha.1 ..)
    intro m2 hsp2 hmem2
    rw [forall_mem_cons] at hmem2
    obtain ⟨m3, hrun3, hsp3, hmem3, hreg3⟩ := hback m2 hsp2 hmem2.2
    -- the other places are elsewhere, so this one still has the value that was saved
    have hne (q) (hq : q ∈ slots) : m.sp + p.2 ≠ m.sp + q.2 := fun heq =>
      hslots.1 (mem_map.2 ⟨q, hq, (Int.add_left_cancel heq).symm⟩)
    have hword : m3.mem (m3.sp + p.2) = [m.reg (file p.1)] := by
      rw [hmem3, hsp3]
      exact hmem2.1.trans ((hout _ hne).trans (Function.update_self ..))
    refine ⟨m3.load p.2 (file p.1), ?_, hsp3, hmem3, ?_⟩
    · rw [reverse_cons, map_append, run_append, hrun3]
      exact run_cons (hload.1 m3) (show k ∣ m3.sp from hsp3 ▸ hm)
    · have hload (r) (hr : m3.reg r = m.reg r ∨ r = file p.1) :
          (m3.load p.2 (file p.1)).reg r = m.reg r := by
        rw [Machine.load, hword]
        by_cases hrp : r = file p.1
        · simp [Machine.set, hrp]
        · simpa [Machine.set, hrp] using hr
      exact forall_mem_cons.2 ⟨hload _ (.inr rfl), fun q hq => hload _ (.inl (hreg3 q hq))⟩

end Frames

/-! ## A64 -/

namespace A64
open IR (span_eq)
open Frames IR.Pass

section
variable {f : IR.Fn} {c : Ctx} {x : IR.Ins}

def Tmpl.act (f : IR.Fn) (c : Ctx) (x : IR.Ins) (t : Tmpl) (m : Machine) : Option Machine :=
  match t.opcode, (t.slots.mapM (Slot.value f c x)).toOption with
  | "stp_x_imm_pre", some [31, n, a, b] => m.push (-n) [.gpr a.toNat, .gpr b.toNat]
  | "str_x_imm_pre", some [31, n, a] => m.push (-n) [.gpr a.toNat]
  | "fstp_d_imm_pre", some [31, n, a, b] => m.push (-n) [.flt a.toNat, .flt b.toNat]
  | "fstr_d_imm_pre", some [31, n, a] => m.push (-n) [.flt a.toNat]
  | "ldp_x_imm_post", some [a, b, 31, n] => m.pop n [.gpr a.toNat, .gpr b.toNat]
  | "ldr_x_imm_post", some [a, 31, n] => m.pop n [.gpr a.toNat]
  | "fldp_d_imm_post", some [a, b, 31, n] => m.pop n [.flt a.toNat, .flt b.toNat]
  | "fldr_d_imm_post", some [a, 31, n] => m.pop n [.flt a.toNat]
  | "sub_x_imm", some [31, 31, n] => m.drop n
  | "add_x_imm", some [31, 31, n] => m.drop (-n)
  | "movz_x_imm", some [d, n] => m.set (.gpr d.toNat) n
  | "add_x_reg_uxtx", some [d, 31, a, 0] => m.set (.gpr d.toNat) (m.sp + m.reg (.gpr a.toNat))
  | "ret", some [_] => m
  | _, _ => none

/-- Registers of a file, two at a time, around a frame. -/
lemma restores_byPairs {act : Tmpl → Machine → Option Machine} {entry exit : List Tmpl}
  {size room : Int} {rs : List Reg} {push pop : Nat → Nat → Tmpl}
  {push1 pop1 : Nat → Tmpl} (file : Nat → Reg) (ns : List Nat)
  (hpush : ∀ a b m, act (push a b) m = some (m.push 16 [file b, file a]))
  (hpush1 : ∀ a m, act (push1 a) m = some (m.push 16 [file a]))
  (hpop : ∀ a b m, act (pop a b) m = some (m.pop 16 [file b, file a]))
  (hpop1 : ∀ a m, act (pop1 a) m = some (m.pop 16 [file a])) (hroom : room ≤ size)
  (h : Restores 16 act entry exit size room rs) :
  Restores 16 act (byPairs push push1 ns ++ entry) (exit ++ (byPairs pop pop1 ns).reverse)
    (8 * evenUp ns.length + size) room (ns.map file ++ rs) := by
  fun_induction byPairs push push1 ns with
  | case1 a b r ih =>
    have hsize : 8 * (evenUp (r.length + 2) : Int) + size = 16 + (8 * evenUp r.length + size) := by
      simp only [evenUp]
      omega
    -- what is pushed first is popped last, around the frame of the other registers
    rw [byPairs, reverse_cons, ← append_assoc, length_cons, length_cons, hsize]
    exact (ih.nest (hpush a b) (hpop a b) (by decide) (by decide) (by omega)).mono (by simp)
  | case2 a =>
    simpa [byPairs, evenUp] using h.nest (hpush1 a) (hpop1 a) (by decide) (by decide) hroom
  | case3 => simpa [byPairs, evenUp] using h

/-! ### Numbers in instructions -/

def Field.Takes (fld : Field) (n : Int) : Prop := ∃ code, fld.encode n = .ok code

/-- One group of `w` bits, the lowest one or the next. -/
lemma exists_encodeShifted? {w n x : Nat} (hlt : x < 2 ^ (2 * w))
  (hx : x < 2 ^ w ∨ x % 2 ^ w = 0) :
  ∃ code, encodeShifted? w (n + 2) x = some code ∧ code < 2 ^ (w + 1) := by
  have hpow : 2 ^ w < 2 ^ (w + 1) := Nat.pow_lt_pow_right (by decide) (by omega)
  by_cases h : x < 2 ^ w
  · exact ⟨x, by simp [encodeShifted?, encodeShiftedFrom, span_eq, h], h.trans hpow⟩
  have hk : x / 2 ^ w < 2 ^ w := Nat.div_lt_of_lt_mul (by rwa [← pow_add, ← two_mul])
  refine ⟨x / 2 ^ w ||| 2 ^ w, ?_, Nat.or_lt_two_pow (hk.trans hpow) hpow⟩
  simp [encodeShifted?, encodeShiftedFrom, span_eq, h, hx.resolve_left h,
    Nat.shiftRight_eq_div_pow, hk, Nat.shiftLeft_eq]

lemma Field.takes_shifted_iff {fld : Field} {w x : Nat}
  (hf : fld = .shifted12 ∧ w = 12 ∨ fld = .shifted16 ∧ w = 16) (hlt : x < 2 ^ (2 * w)) :
  fld.Takes x ↔ x < 2 ^ w ∨ x % 2 ^ w = 0 := by
  have hneg : ¬ (x : Int) < 0 := by omega
  constructor
  · rintro ⟨code, hcode⟩
    by_contra! h
    have hnone (n : Nat) : encodeShifted? w (n + 1) x = none := by
      simp [encodeShifted?, encodeShiftedFrom, span_eq, h.1.not_gt, h.2]
    rcases hf with ⟨rfl, rfl⟩ | ⟨rfl, rfl⟩ <;>
      simp [encode, encode?, reading, encodeSpecial?, hnone, orFault] at hcode
  · intro hx
    have hbounded {n : Nat} (h : n < 2 ^ (w + 1)) : fld.bounded? n = some (n : Int) := by
      have hle : 2 ^ (w + 1) ≤ span fld.width := by
        rcases hf with ⟨rfl, rfl⟩ | ⟨rfl, rfl⟩ <;> decide
      exact if_pos (Int.ediv_eq_zero_of_lt (by omega) (by exact_mod_cast h.trans_le hle))
    have hsome (n : Nat) := exists_encodeShifted? (n := n) hlt hx
    rcases hf with ⟨rfl, rfl⟩ | ⟨rfl, rfl⟩
    · obtain ⟨code, hcode, hroom⟩ := hsome 0
      exact ⟨code, by simp [encode, encode?, reading, hneg, encodeSpecial?, hcode, hbounded hroom,
        orFault]⟩
    · obtain ⟨code, hcode, hroom⟩ := hsome 2
      exact ⟨code, by simp [encode, encode?, reading, hneg, encodeSpecial?, hcode, hbounded hroom,
        orFault]⟩

/-- The number in the last slot can be written in the last field of the instruction. -/
def Tmpl.Writable (f : IR.Fn) (c : Ctx) (x : IR.Ins) (t : Tmpl) : Prop :=
  ∃ fld s n, (findOp? t.opcode).bind (·.fields.getLast?) = some fld ∧
    t.slots.getLast? = some s ∧ s.value f c x = .ok n ∧ fld.Takes n

lemma Tmpl.writable_iff {name : String} {fld : Field} {ss : List Slot} {s : Slot} {n : Int}
  (hfld : (findOp? name).bind (·.fields.getLast?) = some fld)
  (hs : ss.getLast? = some s) (hn : s.value f c x = .ok n) :
  (tmpl name ss).Writable f c x ↔ fld.Takes n := by
  simp [Writable, tmpl, hfld, hs, hn]

lemma field_of_number : (findOp? "sub_x_imm").bind (·.fields.getLast?) = some .shifted12 ∧
  (findOp? "add_x_imm").bind (·.fields.getLast?) = some .shifted12 ∧
  (findOp? "movz_x_imm").bind (·.fields.getLast?) = some .shifted16 := by decide +kernel

/-! ### Adjustments of the stack pointer -/

def parts (n : Nat) : List Nat := [n / 2 ^ 12 * 2 ^ 12, n % 2 ^ 12].filter (· ≠ 0)

lemma adjustStack_eq {n : Nat} (h : n < 2 ^ 24) (name : String) :
  adjustStack name n = .ok ((parts n).map fun (k : Nat) => tmpl name [sp, sp, .fixed k]) := by
  have hdrop : dropBits n 24 = 0 := Int.ediv_eq_zero_of_lt (by omega) (by rw [span_eq]; omega)
  have hlow : lowBits n 12 = (n % 2 ^ 12 : Nat) := by simp [lowBits, span_eq]
  have hhigh : (n : Int) - (n % 2 ^ 12 : Nat) = (n / 2 ^ 12 * 2 ^ 12 : Nat) := by omega
  have hfilter (a b : Nat) : [(a : Int), (b : Int)].filterMap (fun k : Int =>
      if k = 0 then none else some (tmpl name [sp, sp, .fixed k])) =
        ([a, b].filter (· ≠ 0)).map fun (k : Nat) => tmpl name [sp, sp, .fixed k] := by
    by_cases ha : a = 0 <;> by_cases hb : b = 0 <;> simp [ha, hb]
  simp only [adjustStack, hdrop, hlow, hhigh, hfilter, ensure, bind, Except.bind, pure,
    Except.pure, beq_self_eq_true, if_true, parts]

lemma sum_parts (n : Nat) : (parts n).sum = n := by
  have hsum (a b : Nat) : ([a, b].filter (· ≠ 0)).sum = a + b := by
    by_cases ha : a = 0 <;> by_cases hb : b = 0 <;> simp [ha, hb]
  rw [parts, hsum]
  omega

lemma of_mem_parts {n k : Nat} (hk : k ∈ parts n) :
  k ≤ n ∧ (k < 2 ^ 12 ∨ k % 2 ^ 12 = 0) ∧ (16 ∣ n → 16 ∣ k) := by
  simp only [parts, mem_filter, mem_cons, not_mem_nil, or_false] at hk
  omega

/-! ### Frames -/

lemma run_getfp {d : Nat} (hreg : Backend.regNum f x 0 = .ok d) {m : Machine}
  (hm : 16 ∣ m.sp) : run 16 (Tmpl.act f c x)
  [tmpl "movz_x_imm" [rg 0, .frameSize], addSp] m =
    some (m.set (.gpr d) (m.sp + c.frameSize)) := by
  have hd : (rg 0).value f c x = .ok (d : Int) := hreg
  have hmovz : [rg 0, .frameSize].mapM (Slot.value f c x) = .ok [(d : Int), c.frameSize] := by
    rw [mapM_cons, hd]
    rfl
  have hadd : [rg 0, sp, rg 0, zero].mapM (Slot.value f c x) = .ok [(d : Int), 31, d, 0] := by
    simp only [mapM_cons, hd]
    rfl
  let m' := m.set (.gpr d) c.frameSize
  have hfst : Tmpl.act f c x (tmpl "movz_x_imm" [rg 0, .frameSize]) m = some m' := by
    rw [Tmpl.act, tmpl, hmovz]
    rfl
  have hsecond : Tmpl.act f c x addSp m' =
      some (m'.set (.gpr d) (m'.sp + m'.reg (.gpr d))) := by
    rw [Tmpl.act, addSp, tmpl, hadd]
    rfl
  rw [run_cons hfst hm, run_cons hsecond hm]
  simp [run, Machine.set, m']

lemma ctx_spec (hc : ctx f = .ok c) : c.gpr.length ≤ 32 ∧ c.flt.length ≤ 32 ∧
  c.stack = (f.frameSize + 15) / 16 * 16 := by
  obtain ⟨regs, -, heq⟩ := bind_ok.1 hc
  cases heq
  exact ⟨length_filter_le _ _, length_filter_le _ _, rfl⟩

/-- A frame is undone, whatever its size. Code that asks for its size gets it, if that can be
written there. -/
theorem frame_restored (hc : ctx f = .ok c) (h0 : 0 ≤ f.frameSize)
  (hsize : f.frameSize ≤ 2 ^ 24 - 16) :
  ∃ entry exit, prolog c = .ok entry ∧ epilog c = .ok exit ∧
    Restores 16 (Tmpl.act f c x) entry exit c.frameSize c.stack
      (c.gpr.map Reg.gpr ++ c.flt.map Reg.flt) ∧
    (∀ name ∈ ["sub_x_imm", "add_x_imm"], ∃ ts, adjustStack name c.stack = .ok ts ∧
      ∀ t ∈ ts, t.Writable f c x) ∧
    ∀ q ∈ pats .getfp, (∀ (d : Nat) (m : Machine), Backend.regNum f x 0 = .ok d → 16 ∣ m.sp →
        run 16 (Tmpl.act f c x) q.emit m = some (m.set (.gpr d) (m.sp + c.frameSize))) ∧
      ((∀ t ∈ q.emit.head?, t.Writable f c x) ↔ c.frameSize < 2 ^ 16 ∨ 2 ^ 16 ∣ c.frameSize) := by
  obtain ⟨hgpr, hflt, hstack⟩ := ctx_spec hc
  obtain ⟨n, hn⟩ : ∃ n : Nat, c.stack = n := Int.eq_ofNat_of_zero_le (by omega)
  have hlt : n < 2 ^ 24 := by omega
  have hpart : ∀ k ∈ parts n, (16 : Int) ∣ k := fun k hk => by
    exact_mod_cast (of_mem_parts hk).2.2 (by omega)
  refine ⟨_, _, by simp only [prolog, hn, adjustStack_eq hlt, bind, Except.bind]; rfl,
    by simp only [epilog, hn, adjustStack_eq hlt, bind, Except.bind]; rfl, ?_, ?_, ?_⟩
  · have hframe : c.frameSize = 8 * evenUp c.gpr.reverse.length +
        (8 * evenUp c.flt.reverse.length + (n : Int)) := by
      simp only [Ctx.frameSize, length_reverse]
      omega
    rw [append_assoc (byPairs _ _ _), ← map_reverse, hn, hframe]
    refine .mono (.exit_append (restores_byPairs .gpr _ (fun _ _ _ => rfl) (fun _ _ => rfl)
      (fun _ _ _ => rfl) (fun _ _ => rfl) ?_ (restores_byPairs .flt _ (fun _ _ _ => rfl)
        (fun _ _ => rfl) (fun _ _ _ => rfl) (fun _ _ => rfl) le_rfl (restores_drop (sum_parts n)
          (reverse_perm _) ?_ hpart (fun k _ m => by rw [one_mul]; rfl)
          (fun k _ m => by rw [neg_one_mul]; rfl)))) fun _ => rfl) ?_
    · omega
    · omega
    · simp [subset_def]
  · intro name hname
    rw [hn]
    refine ⟨_, adjustStack_eq hlt name, forall_mem_map.2 fun k hk => ?_⟩
    obtain ⟨hle, hgroup, -⟩ := of_mem_parts hk
    have hfld : (findOp? name).bind (·.fields.getLast?) = some .shifted12 := by
      simp only [mem_cons, not_mem_nil, or_false] at hname
      rcases hname with rfl | rfl
      · exact field_of_number.1
      · exact field_of_number.2.1
    refine (Tmpl.writable_iff hfld rfl rfl).2 ?_
    exact (Field.takes_shifted_iff (.inl ⟨rfl, rfl⟩) (by omega)).2 hgroup
  · intro q hq
    obtain rfl := mem_singleton.1 hq
    obtain ⟨s, hs⟩ : ∃ s : Nat, c.frameSize = s :=
      Int.eq_ofNat_of_zero_le (by simp only [Ctx.frameSize]; omega)
    have hlt : s < 2 ^ 32 := by simp only [Ctx.frameSize, evenUp] at hs; omega
    refine ⟨fun d m hreg hm => run_getfp hreg hm, ?_⟩
    have hmovz : (tmpl "movz_x_imm" [rg 0, .frameSize]).Writable f c x ↔
        s < 2 ^ 16 ∨ s % 2 ^ 16 = 0 :=
      (Tmpl.writable_iff field_of_number.2.2 rfl (congrArg _ hs)).trans
        (Field.takes_shifted_iff (.inr ⟨rfl, rfl⟩) hlt)
    simp only [pat, head?_cons, Option.mem_some_iff, forall_eq', hmovz]
    omega

def asking (room : Int) : IR.Fn where
  name := "f"
  regs := #[{ name := "x", kind := .a64, home := .cpu (gpr 19) }]
  code := #[.of .getfp [.reg 0]]
  blks := #[{ name := "b", code := [0] }]
  order := [0]
  frameSize := room

theorem frame_restored_asking : let c : Ctx := ⟨[19], [], 64, none⟩
  ∃ entry exit, prolog c = .ok entry ∧ epilog c = .ok exit ∧
    Restores 16 (Tmpl.act (asking 50) c ((asking 50).ins 0)) entry exit 80 64 [.gpr 19] := by
  obtain ⟨entry, exit, hentry, hexit, hrestores, -⟩ := frame_restored (f := asking 50)
    (c := ⟨[19], [], 64, none⟩) (x := (asking 50).ins 0) rfl (by decide) (by decide)
  exact ⟨entry, exit, hentry, hexit, hrestores⟩

/-- The size of this frame has two groups of 16 bits. -/
theorem asking_not_writable : ctx (asking 65552) = .ok ⟨[19], [], 65552, none⟩ ∧
  ¬ (tmpl "movz_x_imm" [rg 0, .frameSize]).Writable (asking 65552) ⟨[19], [], 65552, none⟩
    ((asking 65552).ins 0) := by
  refine ⟨rfl, fun h => ?_⟩
  have htakes := (Tmpl.writable_iff field_of_number.2.2 rfl rfl).1 h
  exact absurd ((Field.takes_shifted_iff (x := 65568) (.inr ⟨rfl, rfl⟩) (by decide)).1 htakes)
    (by decide)

end
end A64

/-! ## X64 -/

namespace X64
open Frames IR.Pass
variable {f : IR.Fn} {c : Ctx} {x : IR.Ins}

/-- What an instruction of a frame does. Its numbers have 32 bits and a sign. -/
def Tmpl.act (f : IR.Fn) (c : Ctx) (x : IR.Ins) (t : Tmpl) (m : Machine) : Option Machine :=
  match t.opcode, (t.holes.mapM (Hole.value f c x)).toOption with
  | "push_64_r", some [a] => m.push 8 [.gpr a.toNat]
  | "pop_64_r", some [a] => m.pop 8 [.gpr a.toNat]
  | "sub_64_mr_imm32", some [4, n] => m.drop (n.bmod (2 ^ 32))
  | "add_64_mr_imm32", some [4, n] => m.drop (-n.bmod (2 ^ 32))
  | "movsd_mbis32_x", some [4, 4, 0, n, a] => m.save (n.bmod (2 ^ 32)) (.flt a.toNat)
  | "movsd_x_mbis32", some [a, 4, 4, 0, n] => m.load (n.bmod (2 ^ 32)) (.flt a.toNat)
  | "ret", some [] => m
  | _, _ => none

def fileReg (r : IR.CpuReg) : Reg := if isGpr r then .gpr r.no else .flt r.no

def survives (r : IR.CpuReg) : Bool :=
  r.no < 16 && if isGpr r then gprSurvives r.no else fltSurvives r.no

lemma ctx_spec (hc : ctx f = .ok c) : ∃ regs, Backend.residentRegs f = .ok regs ∧
  (regs.filter survives).map fileReg ⊆ c.gpr.map Reg.gpr ++ c.flt.map Reg.flt ∧
  f.frameSize ≤ c.stack ∧ 8 ∣ c.frameSize ∧
  c.stack + 8 * c.flt.length ≤ c.frameSize - 8 * c.gpr.length - 8 ∧
  (f.isLeaf = false → 16 ∣ c.frameSize) := by
  obtain ⟨regs, hregs, heq⟩ := bind_ok.1 hc
  cases heq
  refine ⟨regs, hregs, ?_, ?_⟩
  · intro r hr
    simp only [mem_map, mem_filter, survives, Bool.and_eq_true, decide_eq_true_eq] at hr
    obtain ⟨r, ⟨hr, hlt, hsurvives⟩, rfl⟩ := hr
    cases hgpr : isGpr r <;> rw [hgpr] at hsurvives
    · simpa [fileReg, hgpr, hlt] using ⟨hsurvives, r, ⟨hr, hgpr⟩, rfl⟩
    · simpa [fileReg, hgpr, hlt] using ⟨hsurvives, r, ⟨hr, hgpr⟩, rfl⟩
  · simp only [Ctx.frameSize]
    refine ⟨by omega, ?_, ?_, fun hleaf => ?_⟩
    · split <;> omega
    · split <;> omega
    · rw [if_pos (by simp [hleaf])]
      omega

lemma floatPlaces_spec (c : Ctx) : c.floatPlaces.map Prod.fst = c.flt.reverse ∧
  (c.floatPlaces.Pairwise fun p q => p.2 + 8 ≤ q.2) ∧
  ∀ p ∈ c.floatPlaces, c.stack ≤ p.2 ∧ p.2 + 8 ≤ c.stack + 8 * c.flt.length := by
  refine ⟨by simp [Ctx.floatPlaces, Function.comp_def], ?_, ?_⟩
  · have hlt : (c.flt.reverse.zipIdx.map Prod.snd).Pairwise (· < ·) := by
      rw [zipIdx_map_snd]
      exact pairwise_lt_range'
    rw [Ctx.floatPlaces, pairwise_map]
    refine (pairwise_map.1 hlt).imp fun h => ?_
    dsimp only
    omega
  · simp only [Ctx.floatPlaces, forall_mem_map]
    rintro ⟨n, i⟩ hi
    have hlt := (mem_zipIdx hi).2.1
    rw [length_reverse] at hlt
    omega

/-- Room for stack areas and saved floating point registers. -/
lemma restores_room {n : Int} (hn : c.frameSize - 8 * c.gpr.length - 8 = n) (h0 : 0 ≤ c.stack)
  (hk : 8 ∣ n) (hroom : c.stack + 8 * c.flt.length ≤ n) (hsize : n < 2 ^ 31) :
  Restores 8 (Tmpl.act f c x)
    (adjustStack "sub_64_mr_imm32" c ++ c.floatPlaces.map fun (n, place) =>
        tmpl "movsd_mbis32_x" (framed (.fixed place) ++ [.fixed n]))
      ((c.floatPlaces.reverse.map fun (n, place) =>
        tmpl "movsd_x_mbis32" (.fixed n :: framed (.fixed place))) ++
        adjustStack "add_64_mr_imm32" c) n c.stack (c.flt.map Reg.flt) := by
  obtain ⟨hfst, hapart, hplaces⟩ := floatPlaces_spec c
  have hbmod {n : Int} (h0 : 0 ≤ n) (h : n < 2 ^ 31) : n.bmod (2 ^ 32) = n :=
    Int.bmod_eq_of_le (by omega) (by omega)
  have hslot (p) (hp : p ∈ c.floatPlaces) (m : Machine) :
      Tmpl.act f c x (tmpl "movsd_mbis32_x" (framed (.fixed p.2) ++ [.fixed p.1])) m =
        some (m.save p.2 (.flt p.1)) ∧
      Tmpl.act f c x (tmpl "movsd_x_mbis32" (.fixed p.1 :: framed (.fixed p.2))) m =
        some (m.load p.2 (.flt p.1)) := by
    have hbounds := hplaces p hp
    have hplace := hbmod (n := p.2) (by omega) (by omega)
    exact ⟨congrArg (fun k => some (m.save k (.flt p.1))) hplace,
      congrArg (fun k => some (m.load k (.flt p.1))) hplace⟩
  have hadjust (name : String) {k : Int} {m : Machine} (hkn : k.natAbs = n.natAbs) (hm : 8 ∣ m.sp)
      (h : Tmpl.act f c x (tmpl name [rsp, .fixed n]) m = some (m.drop k)) :
      run 8 (Tmpl.act f c x) (adjustStack name c) m = some (m.drop k) := by
    rw [adjustStack, hn]
    split
    · exact run_cons h (Int.dvd_sub hm (by omega))
    · obtain rfl : k = 0 := by omega
      simp [run, Machine.drop]
  intro m hm
  have hsub := hadjust "sub_64_mr_imm32" rfl hm
    (congrArg (fun k => some (m.drop k)) (hbmod (by omega) hsize))
  have hm' : 8 ∣ (m.drop n).sp := Int.dvd_sub hm hk
  obtain ⟨m1, hrun, hsp, hreg, hout, hback⟩ := run_saves .flt (fun p hp m => (hslot p hp m).1)
    (fun p hp m => (hslot p hp m).2) (pairwise_map.2 (hapart.imp fun h => by omega)) hm'
  have hsp' : (m.drop n).sp = m.sp - n := rfl
  refine ⟨m1, by rw [run_append, hsub]; exact hrun, hsp, hreg, fun a ha => ?_, ?_⟩
  · refine hout a fun p hp => ?_
    have hbounds := hplaces p hp
    omega
  intro m2 hsp2 hmem2
  obtain ⟨m3, hrun3, hsp3, hmem3, hreg3⟩ := hback m2 (hsp2.trans hsp) fun p hp => by
    have hbounds := hplaces p hp
    exact hmem2 _ (by omega) (by omega)
  refine ⟨m3.drop (-n), ?_, by simp only [Machine.drop]; omega, hmem3, fun r hr => ?_⟩
  · rw [run_append, hrun3]
    exact hadjust _ (by omega) (hsp3 ▸ hm')
      (congrArg (fun k => some (m3.drop (-k))) (hbmod (by omega) hsize))
  · obtain ⟨n, hn, rfl⟩ := mem_map.1 hr
    rw [← mem_reverse, ← hfst] at hn
    obtain ⟨p, hp, rfl⟩ := mem_map.1 hn
    exact hreg3 p hp

/-- A frame of less than `2 ^ 31` bytes is undone. Floating point registers are saved apart from each
other, above the stack areas and below the general registers. -/
theorem saves_restored (hc : ctx f = .ok c) (h0 : 0 ≤ f.frameSize)
  (hsize : c.frameSize < 2 ^ 31) :
  ∃ entry exit regs, prolog c = .ok entry ∧ epilog c = .ok exit ∧
    Backend.residentRegs f = .ok regs ∧ f.frameSize ≤ c.stack ∧
    Restores 8 (Tmpl.act f c x) entry exit (c.frameSize - 8) c.stack
      ((regs.filter survives).map fileReg) ∧
    (c.floatPlaces.Pairwise fun p q => p.2 + 8 ≤ q.2) ∧
    (∀ p ∈ c.floatPlaces, c.stack ≤ p.2 ∧ p.2 + 8 ≤ c.frameSize - 8 - 8 * c.gpr.length) ∧
    (f.isLeaf = false → ∀ sp : Int, sp % 16 = 8 → (sp - (c.frameSize - 8)) % 16 = 0) := by
  obtain ⟨regs, hregs, hsaved, hstack, hk, hroom, hleaf⟩ := ctx_spec hc
  obtain ⟨-, hapart, hplaces⟩ := floatPlaces_spec c
  refine ⟨_, _, regs, rfl, rfl, hregs, hstack, ?_, hapart, fun p hp => ?_, fun h sp hsp => ?_⟩
  · have hframe : c.frameSize - 8 = 8 * c.gpr.length + (c.frameSize - 8 * c.gpr.length - 8) := by
      omega
    rw [append_assoc, hframe]
    exact .mono (.exit_append (restores_each .gpr c.gpr (fun _ _ => rfl) (fun _ _ => rfl) (by omega)
      (restores_room rfl (by omega) (by omega) hroom (by omega))) fun _ => rfl) hsaved
  · have hbounds := hplaces p hp
    omega
  · have hdvd := hleaf h
    omega

/-- A function that keeps a number in `xmm8`. -/
def keeping (room : Int) : IR.Fn where
  name := "f"
  regs := #[{ name := "x", kind := .f64, home := .cpu (flt 8) }]
  code := #[.of .mov [.reg 0, .reg 0]]
  blks := #[{ name := "b", code := [0] }]
  order := [0]
  frameSize := room

theorem saves_restored_keeping : let c : Ctx := ⟨[], [8], 64, true, none⟩
  ∃ entry exit, prolog c = .ok entry ∧ epilog c = .ok exit ∧
    Restores 8 (Tmpl.act (keeping 50) c ((keeping 50).ins 0)) entry exit (c.frameSize - 8) 64
      [.flt 8] := by
  obtain ⟨entry, exit, _, hentry, hexit, ⟨⟩, -, hrestores, -⟩ := saves_restored (f := keeping 50)
    (c := ⟨[], [8], 64, true, none⟩) (x := (keeping 50).ins 0) rfl (by decide) (by decide)
  exact ⟨entry, exit, hentry, hexit, hrestores.mono (by decide)⟩

/-- A frame of more than `2 ^ 32` bytes takes only 24 bytes from the stack. -/
theorem keeping_cut : ctx (keeping (2 ^ 32 + 16)) = .ok ⟨[], [8], 2 ^ 32 + 16, true, none⟩ ∧
  ∃ entry, prolog ⟨[], [8], 2 ^ 32 + 16, true, none⟩ = .ok entry ∧
    (run 8 (Tmpl.act (keeping 0) ⟨[], [8], 2 ^ 32 + 16, true, none⟩ default) entry
      ⟨fun _ => 0, 8, fun _ => []⟩).map Machine.sp = some (8 - 24) :=
  ⟨rfl, _, rfl, rfl⟩

end X64
end Retarget

/-! ## Registers for arguments

The registers of a signature are taken in ascending order from two files. What is left is divided
between values that cross blocks and the blocks. -/

namespace Retarget.A32
open IR (CpuReg Kind)
open IR.Pass List
variable {k : Kind} {ks : List Kind} {g s : Nat} {rs : List CpuReg}

def places (c : CpuReg) : List (Bool × Nat) := (units c).map fun n => (isGpr c, n)
def isGeneral (k : Kind) : Bool := k != .f32 && k != .f64

lemma of_ensure_bind {α : Type} {b : Bool} {why : String} {k : Unit → Res α}
  {r : Res α} (h : (ensure b why >>= k) = r) (hr : r ≠ .error (.broken why)) : k () = r := by
  cases b
  · exact absurd h.symm hr
  · exact h

/-- One argument takes what lies between two positions of its file. -/
lemma argRegs_cons_ok (h : argRegs (k :: ks) g s = .ok rs) :
  ∃ c rest g' s', rs = c :: rest ∧ argRegs ks g' s' = .ok rest ∧ g ≤ g' ∧ s ≤ s' ∧
    (places c).Nodup ∧
    ∀ q ∈ places c, (if q.1 then g else s) ≤ q.2 ∧ q.2 < if q.1 then g' else s' := by
  simp only [argRegs] at h
  split at h
  · obtain ⟨rest, hrest, h⟩ := bind_ok.1 (of_ensure_bind h (by simp))
    cases h
    refine ⟨_, rest, g, s + 1, rfl, hrest, ?_⟩
    simp [places, units, isGpr, flt, gprFam, fltFam, dblFam]
  · split at h
    · obtain ⟨rest, hrest, h⟩ := bind_ok.1 (of_ensure_bind h (by simp))
      cases h
      refine ⟨_, rest, g, _, rfl, hrest, ?_⟩
      simp [places, units, isGpr, dbl, gprFam, dblFam]
      split <;> omega
    · have h := of_ensure_bind (of_ensure_bind h (by simp)) (by simp)
      split at h
      · simp [bind, Except.bind] at h
      obtain ⟨rest, hrest, ⟨⟩⟩ := bind_ok.1 h
      refine ⟨_, rest, g + 1, s, rfl, hrest, ?_⟩
      simp [places, units, isGpr, gpr, gprFam, dblFam]

lemma places_argRegs (h : argRegs ks g s = .ok rs) :
  rs.length = ks.length ∧ (rs.flatMap places).Nodup ∧
    ∀ q ∈ rs.flatMap places, (if q.1 then g else s) ≤ q.2 := by
  induction ks generalizing g s rs with
  | nil =>
    cases h
    simp
  | cons k ks ih =>
    obtain ⟨c, rest, g', s', rfl, hrest, hg, hs, hnd, hc⟩ := argRegs_cons_ok h
    obtain ⟨hlen, hnd', hlow⟩ := ih hrest
    rw [flatMap_cons, nodup_append]
    -- the first register lies below where the others start, in its own file
    refine ⟨by simp [hlen], ⟨hnd, hnd', fun q hq r hr heq => ?_⟩, fun q hq => ?_⟩
    · have := (hc q hq).2
      have := hlow r hr
      subst heq
      omega
    · rcases mem_append.1 hq with hq | hq
      · exact (hc q hq).1
      · have := hlow q hq
        split at this <;> simp_all <;> omega

lemma error_of_cons {x : Res (List CpuReg)} {c : CpuReg} {e : Fault}
  (h : (do return c :: (← x)) = Except.error e) : x = .error e := by
  cases x with
  | error => exact h
  | ok rest => cases h

lemma argRegs_pastEnd (h : argRegs ks g s = .error .pastEnd) : 6 < g + ks.countP isGeneral := by
  induction ks generalizing g s with
  | nil => cases h
  | cons k ks ih =>
    simp only [argRegs] at h
    rw [countP_cons]
    split at h
    · have := ih (error_of_cons (of_ensure_bind h (by simp)))
      omega
    · split at h
      · have := ih (error_of_cons (of_ensure_bind h (by simp)))
        omega
      · have h := of_ensure_bind (of_ensure_bind h (by simp)) (by simp)
        have hk : isGeneral k := by simp_all [isGeneral]
        rw [if_pos hk]
        split at h
        · omega
        · have := ih (error_of_cons h)
          omega

/-- Caller and callee agree on registers that do not overlap, one for each value. The list of
registers is left only where more than six values are for general registers. -/
theorem params_apart (ks : List Kind) : convention.params ks = convention.rets ks ∧
  (∀ rs, convention.params ks = .ok rs → rs.length = ks.length ∧ (rs.flatMap places).Nodup) ∧
  (convention.params ks = .error .pastEnd → 6 < ks.countP isGeneral) := by
  refine ⟨rfl, fun rs h => ?_, fun h => ?_⟩
  · exact ⟨(places_argRegs h).1, (places_argRegs h).2.1⟩
  · simpa using argRegs_pastEnd h

/-- The check for too many arguments lets the seventh one pass. -/
theorem params_past_end : convention.params (replicate 7 .u32) = .error .pastEnd := rfl

/-! ## Units for values that cross blocks -/

lemma length_le_of_nodup {a b : List Nat} (h : a.Nodup) :
  a.length ≤ b.length + (a.filter (· ∉ b)).length := by
  have hsub : (a.filter (· ∈ b)).length ≤ b.length :=
    (subperm_of_subset (Nodup.filter _ h) fun u hu => by
      simpa using (mem_filter.1 hu).2).length_le
  have hsplit := a.length_eq_length_filter_add (· ∈ b)
  simp only [decide_not] at *
  omega

/-- A unit that does not survive calls is not given away if it is that of a register in `taken`,
but one half of a double register may be. -/
theorem divide_apart (n : Backend.Needs) (taken : List CpuReg) (isGpr : Bool) :
  let file := if isGpr then gprFile else fltFile
  let d := n.divide file.lac file.notLac fun u => taken.any fun c => c.no == u
  (d.lac ++ d.spare ++ d.notLac).Nodup ∧ (∀ u ∈ d.lac ++ d.spare, u ∈ file.lac) ∧
  (∀ c ∈ taken, c.fam ≠ dblFam → ∀ u ∈ units c, u ∉ d.notLac) ∧
  (¬n.exceed file.lac.length file.notLac.length →
    n.localLac ≤ (file.lac.filter (· ∉ d.lac ++ d.spare)).length ∧
    min n.localNotLac file.notLac.length ≤ (file.notLac.filter (· ∉ d.notLac)).length) := by
  intro file d
  have hfile : file.usable.Nodup := by cases isGpr <;> decide
  have hlac : (d.lac ++ d.spare).Sublist file.lac := by
    have := (drop_sublist n.localLac (file.lac.drop n.globalLac)).append_left
      (file.lac.take n.globalLac)
    rwa [take_append_drop] at this
  have hnot : d.notLac.Sublist file.notLac := filter_sublist.trans (drop_sublist ..)
  refine ⟨nodup_append.2 ⟨(Nodup.filter _ hfile).sublist hlac,
    (Nodup.filter _ hfile).sublist hnot, ?_⟩, fun u hu => hlac.subset hu, ?_, fun hfits => ?_⟩
  · rintro u hu _ hv rfl
    have := (mem_filter.1 (hnot.subset hv)).2
    simp [(mem_filter.1 (hlac.subset hu)).2] at this
  · intro c hc hsingle u hu hin
    rw [units, if_neg hsingle, mem_singleton] at hu
    have := (mem_filter.1 hin).2
    simp only [Bool.not_eq_true', any_eq_false, beq_iff_eq] at this
    exact this c hc hu.symm
  · have hl := length_le_of_nodup (a := file.lac) (b := d.lac ++ d.spare) (Nodup.filter _ hfile)
    have hn := length_le_of_nodup (a := file.notLac) (b := d.notLac) (Nodup.filter _ hfile)
    have hdrop : d.notLac.length ≤ (file.notLac.drop (n.localNotLac + _)).length :=
      length_filter_le ..
    have hlen : (d.lac ++ d.spare).length = min n.globalLac file.lac.length +
        (file.lac.length - (n.globalLac + n.localLac)) := by
      simp [d, Backend.Needs.divide]
    simp only [length_drop, Backend.Needs.exceed, Bool.or_eq_true, decide_eq_true_eq] at hdrop hfits
    omega

end Retarget.A32
