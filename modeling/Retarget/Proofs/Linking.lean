import Retarget.Assembly.Unit
import Retarget.Proofs.Passes
import Retarget.Proofs.Wrapping

/-!
# Linking

References are resolved one by one, each in a few bytes of its section. If the bytes of different
references do not overlap, each is resolved as if it were alone: its word in the unit becomes its
word in the executable, for the addresses of its place and its symbol there.
-/

namespace Retarget.Elf.Exe

def setSec (e : Exe) (i : Nat) (s : Sec) : Exe :=
  { e with secs := e.secs.setIfInBounds i s }

lemma sec_setSec {e : Exe} {i : Nat} (hi : i < e.secs.size) (s : Sec) (j : Nat) :
  (e.setSec i s).sec j = if i = j then s else e.sec j := by
  rw [sec, setSec, Array.getD_eq_getD_getElem?, Array.getElem?_setIfInBounds]
  by_cases h : i = j
  · rw [if_pos h, if_pos h, if_pos (h ▸ hi)]
    rfl
  · rw [if_neg h, if_neg h, sec, Array.getD_eq_getD_getElem?]

end Retarget.Elf.Exe

namespace Retarget.Asm
open List Unit
open Elf (Exe Image Sec)
open IR (ensure_ok)
open IR.Pass (bind_ok foldlM_cons_ok)
variable {e : Exe} {bytes : Image} {new : List UInt8} {i j n off : Nat} {p : Part}
  {s : Sec} {α β : Type}

/-! ## Bytes -/

lemma length_leBytes (n : Nat) (v : Int) : (leBytes n v).length = n := by
  induction n generalizing v with
  | zero => rfl
  | succ n ih => rw [leBytes, length_cons, ih]

lemma ofLeBytes_leBytes (n : Nat) (v : Int) :
  (ofLeBytes (leBytes n v) : Int) = lowBits v (8 * n) := by
  induction n generalizing v with
  | zero => exact (Int.emod_one v).symm
  | succ n ih =>
    have hlow : ((UInt8.ofNat (v % 256).toNat).toNat : Int) = v % 256 := by
      rw [UInt8.toNat_ofNat']
      omega
    rw [leBytes, ofLeBytes, Nat.mul_succ, Enc.lowBits_add, ← ih, Int.add_comm]
    push_cast
    rw [hlow]
    rfl

/-- A number that fits is read again from its bytes. -/
lemma ofLeBytes_of_lt {w : Nat} (h : w < 256 ^ n) : ofLeBytes (leBytes n w) = w := by
  have hread := ofLeBytes_leBytes n w
  rw [lowBits, IR.span_eq, Nat.pow_mul, ← Int.natCast_emod, Nat.mod_eq_of_lt h] at hread
  exact Int.ofNat.inj hread

def window (bytes : Image) (off n : Nat) : List UInt8 := (bytes.extract off (off + n)).toList
def wordAt (bytes : Image) (off n : Nat) : Nat := ofLeBytes (window bytes off n)

lemma getElem?_window (bytes : Image) (off n i : Nat) :
  (window bytes off n)[i]? = if i < n then bytes[off + i]? else none := by
  rw [window, Array.getElem?_toList, Array.getElem?_extract]
  by_cases hi : i < n
  · by_cases hsize : off + i < bytes.size
    · rw [if_pos (by omega), if_pos hi]
    · rw [if_neg (by omega), if_pos hi, Array.getElem?_eq_none (by omega)]
  · rw [if_neg (by omega), if_neg hi]

lemma ofLeBytes_lt (bs : List UInt8) : ofLeBytes bs < 256 ^ bs.length := by
  induction bs with
  | nil => exact Nat.one_pos
  | cons b bs ih =>
    have hb := b.toNat_lt
    rw [ofLeBytes, length_cons]
    omega

lemma wordAt_lt (bytes : Image) (off n : Nat) : wordAt bytes off n < 256 ^ n := by
  have hlen : (window bytes off n).length ≤ n := by simp [window]
  exact (ofLeBytes_lt _).trans_le (Nat.pow_le_pow_right (by decide) hlen)

section
variable (hle : off + n ≤ bytes.size) (hlen : new.length = n)
include hle hlen

lemma getElem?_splice (i : Nat) : (splice bytes off n new)[i]? =
  if off ≤ i ∧ i < off + n then new[i - off]? else bytes[i]? := by
  have hsize : (bytes.extract 0 off).size = off := by simp; omega
  have hmid : (bytes.extract 0 off ++ new.toArray).size = off + n := by
    simp
    omega
  rw [splice, Array.getElem?_append, hmid, Array.getElem?_append, hsize]
  by_cases hlow : i < off
  · rw [if_pos (by omega), if_pos hlow, if_neg (by omega), Array.getElem?_extract, if_pos (by omega),
      Nat.zero_add]
  · by_cases hhigh : i < off + n
    · rw [if_pos hhigh, if_neg hlow, if_pos (by omega), getElem?_toArray]
    · rw [if_neg hhigh, if_neg (by omega), Array.getElem?_extract]
      by_cases hi : i < bytes.size
      · rw [if_pos (by omega), show off + n + (i - (off + n)) = i by omega]
      · rw [if_neg (by omega), Array.getElem?_eq_none (by omega)]

lemma size_splice : (splice bytes off n new).size = bytes.size := by
  simp [splice]
  omega

lemma window_splice : window (splice bytes off n new) off n = new := by
  apply ext_getElem?
  intro i
  rw [getElem?_window, getElem?_splice hle hlen]
  by_cases hi : i < n
  · rw [if_pos hi, if_pos (by omega), Nat.add_sub_cancel_left]
  · rw [if_neg hi, getElem?_eq_none (by omega)]

lemma window_splice_of_disjoint {off' n' : Nat}
  (h : off' + n' ≤ off ∨ off + n ≤ off') :
  window (splice bytes off n new) off' n' = window bytes off' n' := by
  apply ext_getElem?
  intro i
  rw [getElem?_window, getElem?_window, getElem?_splice hle hlen]
  by_cases hi : i < n'
  · rw [if_pos hi, if_pos hi, if_neg (by omega)]
  · rw [if_neg hi, if_neg hi]

end

/-! ## One reference -/

/-- References are resolved by patching, inside their section: the word at the place of a reference
becomes one that the relation `patch` allows for the kind of the reference, its place, its target and
the old word. -/
def Linker.Patches (l : Linker) (width : Nat → Nat) (patch : Nat → Int → Int → Nat → Nat → Prop) :
  Prop :=
  ∀ kind off place tgt bytes bytes', l.resolve kind off place tgt bytes = .ok bytes' →
    0 < width kind ∧ off + width kind ≤ bytes.size ∧
      ∃ w, w < 256 ^ width kind ∧ patch kind place tgt (wordAt bytes off (width kind)) w ∧
        bytes' = splice bytes off (width kind) (leBytes (width kind) w)

section
variable {l : Linker} {width : Nat → Nat} {patch : Nat → Int → Int → Nat → Nat → Prop}
  (syms : Array Sym) (number : Part → Nat)

def tgtOf (r : Ref) : Int := (syms.getD r.symbol ⟨"", false, none, -1⟩).value + r.addend

def resolveOne (l : Linker) (e : Exe) (r : Ref) : Res Exe := do
  let s := e.sec (number r.part)
  let bytes ← l.resolve r.kind r.off.toNat (s.addr + r.off) (tgtOf syms r) s.data
  return { e with secs := e.secs.setIfInBounds (number r.part) { s with data := bytes } }

lemma resolveAll_eq_foldlM (u : Unit) (e : Exe) : resolveAll l u syms number e =
  u.references.toList.foldlM (resolveOne syms number l) e := by
  rw [resolveAll, ← Array.foldlM_toList]
  rfl

variable {syms number} {e' : Exe} {r : Ref}

def patched (s : Sec) (off n w : Nat) : Sec :=
  { s with data := splice s.data off n (leBytes n w) }

section
variable (hl : l.Patches width patch) (h : resolveOne syms number l e r = .ok e')
include hl h

lemma resolveOne_sec : 0 < (e.sec (number r.part)).data.size ∧
  r.off.toNat + width r.kind ≤ (e.sec (number r.part)).data.size ∧
  ∃ w, w < 256 ^ width r.kind ∧ patch r.kind ((e.sec (number r.part)).addr + r.off) (tgtOf syms r)
      (wordAt (e.sec (number r.part)).data r.off.toNat (width r.kind)) w ∧
    ∀ j, e'.sec j = if j = number r.part then patched (e.sec j) r.off.toNat (width r.kind) w
      else e.sec j := by
  obtain ⟨bytes, hbytes, he'⟩ := bind_ok.1 h
  obtain ⟨hpos, hle, w, hw, hpatch, rfl⟩ := hl _ _ _ _ _ _ hbytes
  refine ⟨by omega, hle, w, hw, hpatch, fun j => ?_⟩
  have hin : number r.part < e.secs.size := by
    by_contra hout
    have hempty : (e.sec (number r.part)).data.size = 0 := by
      rw [Exe.sec, Array.getD_eq_getD_getElem?, Array.getElem?_eq_none (by omega)]
      rfl
    omega
  rw [← Except.ok.inj he', ← Exe.setSec, Exe.sec_setSec hin]
  by_cases hj : j = number r.part
  · rw [if_pos hj.symm, if_pos hj, hj]
    rfl
  · rw [if_neg (Ne.symm hj), if_neg hj]

lemma resolveOne_window
  (hclear : number r.part = j → r.off.toNat + width r.kind ≤ off ∨ off + n ≤ r.off.toNat) : window
  (e'.sec j).data off n = window (e.sec j).data off n ∧ (e'.sec j).addr = (e.sec j).addr := by
  obtain ⟨-, hle, w, -, -, hsec⟩ := resolveOne_sec hl h
  rw [hsec j]
  by_cases hj : j = number r.part
  · rw [if_pos hj]
    rw [← hj] at hle
    exact ⟨window_splice_of_disjoint hle (length_leBytes _ _) (hclear hj.symm).symm, rfl⟩
  · rw [if_neg hj]
    exact ⟨rfl, rfl⟩

end

/-! ## All references -/

variable {rs : List Ref}

section
variable (hl : l.Patches width patch) (h : rs.foldlM (resolveOne syms number l) e = .ok e')
include hl h

lemma foldlM_nonempty : ∀ r ∈ rs, 0 < (e.sec (number r.part)).data.size := by
  induction rs generalizing e with
  | nil => exact forall_mem_nil _
  | cons r rs ih =>
    obtain ⟨e1, hone, hrest⟩ := foldlM_cons_ok.1 h
    obtain ⟨hpos, hle, w, -, -, hsec⟩ := resolveOne_sec hl hone
    refine forall_mem_cons.2 ⟨hpos, fun s hs => ?_⟩
    have hs1 := ih hrest s hs
    rw [hsec] at hs1
    split at hs1
    · rename_i hj
      rwa [patched, size_splice (hj ▸ hle) (length_leBytes _ _)] at hs1
    · exact hs1

lemma foldlM_window (j off n : Nat) (hclear : ∀ r ∈ rs,
  number r.part = j → r.off.toNat + width r.kind ≤ off ∨ off + n ≤ r.off.toNat) : window
  (e'.sec j).data off n = window (e.sec j).data off n ∧ (e'.sec j).addr = (e.sec j).addr := by
  induction rs generalizing e with
  | nil =>
    cases h
    exact ⟨rfl, rfl⟩
  | cons r rs ih =>
    obtain ⟨e1, hone, hrest⟩ := foldlM_cons_ok.1 h
    obtain ⟨hr, hrs⟩ := forall_mem_cons.1 hclear
    have hfst := resolveOne_window hl hone hr
    have hlater := ih hrest hrs
    exact ⟨hlater.1.trans hfst.1, hlater.2.trans hfst.2⟩

lemma foldlM_addr (j : Nat) : (e'.sec j).addr = (e.sec j).addr :=
  (foldlM_window hl h j 0 0 fun _ _ _ => .inr (Nat.zero_le _)).2

end

/-- If no two references overlap, each word is patched as if it were the only one. -/
lemma foldlM_patches (hl : l.Patches width patch)
  (hclear : rs.Pairwise fun r s => number r.part = number s.part →
    r.off.toNat + width r.kind ≤ s.off.toNat ∨ s.off.toNat + width s.kind ≤ r.off.toNat)
  (h : rs.foldlM (resolveOne syms number l) e = .ok e') :
  ∀ r ∈ rs, patch r.kind ((e.sec (number r.part)).addr + r.off) (tgtOf syms r)
    (wordAt (e.sec (number r.part)).data r.off.toNat (width r.kind))
    (wordAt (e'.sec (number r.part)).data r.off.toNat (width r.kind)) := by
  induction rs generalizing e with
  | nil => exact forall_mem_nil _
  | cons r rs ih =>
    obtain ⟨e1, hone, hrest⟩ := foldlM_cons_ok.1 h
    obtain ⟨hr, hrs⟩ := pairwise_cons.1 hclear
    obtain ⟨-, hle, w, hw, hpatch, hsec⟩ := resolveOne_sec hl hone
    refine forall_mem_cons.2 ⟨?_, fun s hs => ?_⟩
    · -- Later references leave the new word alone.
      have hkeep := (foldlM_window hl hrest (number r.part) r.off.toNat (width r.kind)
        fun s hs hj => (hr s hs hj.symm).symm).1
      have hnew : wordAt (e1.sec (number r.part)).data r.off.toNat (width r.kind) = w := by
        rw [hsec, if_pos rfl, wordAt, patched, window_splice hle (length_leBytes _ _),
          ofLeBytes_of_lt hw]
      rw [wordAt, wordAt, hkeep, ← wordAt, ← wordAt, hnew]
      exact hpatch
    · have hs' := ih hrs hrest s hs
      have hkeep := resolveOne_window hl hone (hr s hs)
      rw [hkeep.2, wordAt, hkeep.1] at hs'
      exact hs'

end

/-! ## Layout -/

lemma place_data {s' : Sec} {vaddr off vaddr' off' : Int}
  (h : s.place vaddr off = .ok (s', vaddr', off')) : s'.data = s.data := by
  unfold Sec.place at h
  split at h
  · cases h
    rfl
  · split at h
    · split at h <;> (cases h; rfl)
    · obtain ⟨-, -, h⟩ := bind_ok.1 h
      obtain ⟨_, -, ⟨⟩⟩ := bind_ok.1 h
      rfl

lemma sec_setIfInBounds_data (h : s.data = (e.sec i).data) (j : Nat) :
  (Exe.sec { e with secs := e.secs.setIfInBounds i s } j).data = (e.sec j).data := by
  rw [Exe.sec, Array.getD_eq_getD_getElem?, Array.getElem?_setIfInBounds]
  by_cases hj : i = j
  · subst hj
    rw [if_pos rfl]
    split
    · exact h
    · rw [Exe.sec, Array.getD_eq_getD_getElem?, Array.getElem?_eq_none (by omega)]
  · rw [if_neg hj, Exe.sec, Array.getD_eq_getD_getElem?]

lemma foldlM_keeps {P : β → Prop} {step : β → α → Res β}
  (hstep : ∀ b a b', P b → step b a = .ok b' → P b') {as : List α} {b b' : β} (hb : P b)
  (h : as.foldlM step b = .ok b') : P b' := by
  induction as generalizing b with
  | nil =>
    cases h
    exact hb
  | cons a as ih =>
    obtain ⟨b1, hone, hrest⟩ := foldlM_cons_ok.1 h
    exact ih (hstep b a b1 hb hone) hrest

/-- Laying out an executable leaves the bytes of its sections alone. -/
def SameData (e : Exe) (t : Exe × Int × Int) : Prop :=
  ∀ j, (t.1.sec j).data = (e.sec j).data

lemma layout_data {e' : Exe} (h : e.layout = .ok e') (j : Nat) :
  (e'.sec j).data = (e.sec j).data := by
  obtain ⟨⟨e1, n⟩, hplace, h⟩ := bind_ok.1 h
  obtain ⟨segs, -, h⟩ := bind_ok.1 h
  obtain ⟨⟨e2, vaddr, off⟩, hfold, hplace⟩ := bind_ok.1 hplace
  have hsame : SameData e (e2, vaddr, off) := by
    refine foldlM_keeps (fun t s t' ht hseg => ?_) (fun _ => rfl) hfold
    refine foldlM_keeps (fun t i t' ht hsec => ?_) (b := (t.1, t.1.segStart s t.2.1 t.2.2)) ht hseg
    obtain ⟨⟨s', _, _⟩, hs', hsec⟩ := bind_ok.1 hsec
    cases hsec
    exact fun j => (sec_setIfInBounds_data (place_data hs') j).trans (ht j)
  cases hplace
  cases h
  exact hsame j

/-! ## From units to executables -/

lemma length_foldl_snd {f : Image × List Int → String → Image × List Int}
  (hf : ∀ a s, (f a s).2.length = a.2.length + 1) (names : List String) (a : Image × List Int) :
  (names.foldl f a).2.length = a.2.length + names.length := by
  induction names generalizing a with
  | nil => rfl
  | cons s names ih =>
    rw [foldl_cons, ih, hf, length_cons]
    omega

lemma length_stringTable (names : List String) : (stringTable names).2.length = names.length := by
  rw [stringTable, length_foldl_snd]
  · simp
  · intro a s
    dsimp only
    split <;> simp

def namesOf (ss : List Sec) : Sec :=
  let names := secOf ".shstrtab" Elf.stringsKind 0 1 #[]
  secOf ".shstrtab" Elf.stringsKind 0 1 (stringTable ((ss ++ [names]).map Sec.name)).1

lemma getElem?_withNames {ss : List Sec} (h : (ss ++ [namesOf ss])[i]? = some s) :
  ∃ n, (withNames ss)[i]? = some { s with nameOff := n } := by
  let offs := (stringTable ((ss ++ [secOf ".shstrtab" Elf.stringsKind 0 1 #[]]).map Sec.name)).2
  have hi : i < (ss ++ [namesOf ss]).length := (List.getElem?_eq_some_iff.1 h).1
  have hlen : i < offs.length := by
    rw [length_stringTable]
    simpa using hi
  refine ⟨offs[i], ?_⟩
  show (((ss ++ [namesOf ss]).zip offs).map _)[i]? = _
  rw [List.getElem?_map, zip_eq_zipWith, List.getElem?_zipWith, h, List.getElem?_eq_getElem hlen]
  rfl

variable (u : Unit)

def Unit.secNum (p : Part) : Nat := ((u.loadedParts.findIdx? (· == p)).map (· + 1)).getD 0

lemma Unit.secNum_inj {u : Unit} {q : Part} (h : u.secNum p = u.secNum q)
  (hne : u.secNum p ≠ 0) : p = q := by
  have hmem : ∀ r, u.secNum r ≠ 0 → u.loadedParts[u.secNum r - 1]? = some r := by
    intro r hr
    rw [secNum] at hr ⊢
    cases hidx : u.loadedParts.findIdx? (· == r) with
    | none => simp [hidx] at hr
    | some i =>
      obtain ⟨hi, hbeq, -⟩ := findIdx?_eq_some_iff_getElem.1 hidx
      simp [hi, beq_iff_eq.1 hbeq]
  have hp := hmem p hne
  rw [h, hmem q (h ▸ hne)] at hp
  exact (Option.some.inj hp).symm

lemma Unit.secNum_le (u : Unit) (p : Part) : u.secNum p ≤ u.loadedParts.length := by
  rw [secNum]
  cases hidx : u.loadedParts.findIdx? (· == p) with
  | none => simp
  | some i =>
    obtain ⟨hi, -, -⟩ := findIdx?_eq_some_iff_getElem.1 hidx
    simp
    omega

def Linker.secs (l : Linker) (u : Unit) : List Sec :=
  ({ name := "", off := -1, addr := -1 } : Sec) :: u.loadedParts.map u.secFor ++
    l.attributes.toList.map fun bs => secOf ".ARM.attributes" 0x70000003 0 1 bs.toArray

def Linker.namedSecs (l : Linker) (u : Unit) (withSyms : Bool) : List Sec :=
  l.secs u ++ if withSyms then symSecs l.cls u (l.secs u).length else []

def Linker.allSecs (l : Linker) (u : Unit) (withSyms : Bool) : List Sec :=
  withNames (l.namedSecs u withSyms)

def Linker.unlinked (l : Linker) (u : Unit) (withSyms : Bool) : Exe :=
  l.executable (l.allSecs u withSyms) (segsFor u.loadedParts (l.allSecs u withSyms).length)

def Unit.addrIn (e : Exe) (p : Part) : Int :=
  if u.loadedParts.contains p then (e.sec (u.secNum p)).addr else -1

lemma sec_modify_of_ne {f : Sec → Sec} (h : i ≠ j) :
  Exe.sec { e with secs := e.secs.modify i f } j = e.sec j := by
  rw [Exe.sec, Array.getD_eq_getD_getElem?, Array.getElem?_modify, if_neg h, Exe.sec,
    Array.getD_eq_getD_getElem?]

lemma Linker.link_ok {l : Linker} {u : Unit} {withSyms : Bool} (h : l.link u withSyms = .ok e) :
  ∃ e0 syms e1, (l.unlinked u withSyms).layout = .ok e0 ∧ addrSyms u (u.addrIn e0) = .ok syms ∧
  resolveAll l u syms u.secNum e0 = .ok e1 ∧ ∀ p, e.sec (u.secNum p) = e1.sec (u.secNum p) := by
  obtain ⟨-, -, h⟩ := bind_ok.1 h
  obtain ⟨e0, hlayout, h⟩ := bind_ok.1 h
  obtain ⟨syms, hsymbols, h⟩ := bind_ok.1 h
  obtain ⟨e1, hresolve, h⟩ := bind_ok.1 h
  refine ⟨e0, syms, e1, hlayout, hsymbols, hresolve, fun p => ?_⟩
  cases withSyms with
  | false =>
    obtain ⟨_, hsame, h⟩ := bind_ok.1 h
    iterate 3 obtain ⟨_, -, h⟩ := bind_ok.1 h
    cases hsame
    cases h
    rfl
  | true =>
    obtain ⟨bytes, -, h⟩ := bind_ok.1 h
    obtain ⟨_, htbl, h⟩ := bind_ok.1 h
    iterate 3 obtain ⟨_, -, h⟩ := bind_ok.1 h
    cases htbl
    cases h
    apply sec_modify_of_ne
    have := u.secNum_le p
    simp
    omega

lemma Linker.sec_unlinked {l : Linker} {u : Unit} {withSyms : Bool}
  (h : (l.namedSecs u withSyms ++ [namesOf (l.namedSecs u withSyms)])[i]? = some s) :
  ∃ n, (l.unlinked u withSyms).sec i = { s with nameOff := n } := by
  obtain ⟨n, hn⟩ := getElem?_withNames h
  have hsec : (l.unlinked u withSyms).sec i =
      ((l.allSecs u withSyms).toArray[i]?).getD ({} : Sec) :=
    Array.getD_eq_getD_getElem? ..
  exact ⟨n, by rw [hsec, getElem?_toArray, allSecs, hn]; rfl⟩

lemma Linker.unlinked_sec_zero (l : Linker) (u : Unit) (withSyms : Bool) :
  ∃ n, (l.unlinked u withSyms).sec 0 = { name := "", off := -1, addr := -1, nameOff := n } := by
  apply sec_unlinked (s := { name := "", off := -1, addr := -1 })
  rfl

lemma Linker.unlinked_sec_succ (l : Linker) {u : Unit} (withSyms : Bool)
  (h : u.loadedParts[i]? = some p) :
  ∃ n, (l.unlinked u withSyms).sec (i + 1) = { u.secFor p with nameOff := n } := by
  have hi : i < u.loadedParts.length := (List.getElem?_eq_some_iff.1 h).1
  refine sec_unlinked ?_
  rw [namedSecs, append_assoc, secs, cons_append, cons_append,
    List.getElem?_cons_succ, append_assoc, List.getElem?_append_left (by simpa using hi),
    List.getElem?_map, h]
  rfl

lemma Linker.unlinked_sec (l : Linker) {u : Unit} (withSyms : Bool) (h : u.secNum p ≠ 0) :
  ((l.unlinked u withSyms).sec (u.secNum p)).data = (u.chunk p).bytes := by
  cases hidx : u.loadedParts.findIdx? (· == p) with
  | none => simp [secNum, hidx] at h
  | some i =>
    have hnumber : u.secNum p = i + 1 := by simp [secNum, hidx]
    obtain ⟨hi, hbeq, -⟩ := List.findIdx?_eq_some_iff_getElem.1 hidx
    have hpart : u.loadedParts[i]? = some p := List.getElem?_eq_some_iff.2 ⟨hi, beq_iff_eq.1 hbeq⟩
    obtain ⟨n, hn⟩ := l.unlinked_sec_succ withSyms hpart
    rw [hnumber, hn]
    cases p <;> rfl

/-! ## Symbols -/

lemma mapM_ok_getElem? {g : α → Res β} {as : List α} {bs : List β}
  (h : as.mapM g = .ok bs) (n : Nat) :
  (as[n]? = none ∧ bs[n]? = none) ∨ ∃ a b, as[n]? = some a ∧ bs[n]? = some b ∧ g a = .ok b := by
  induction as generalizing bs n with
  | nil =>
    cases h
    exact .inl ⟨rfl, rfl⟩
  | cons a as ih =>
    rw [mapM_cons] at h
    obtain ⟨b, hb, h⟩ := bind_ok.1 h
    obtain ⟨bs', hbs, ⟨⟩⟩ := bind_ok.1 h
    cases n with
    | zero => exact .inr ⟨a, b, rfl, rfl, hb⟩
    | succ n => exact ih hbs n

def Unit.valueIn (e : Exe) (n : Nat) : Int :=
  match u.syms[n]? with
  | none => -1
  | some s =>
    match s.part with
    | none => s.value
    | some p => (e.sec (u.secNum p)).addr + s.value

def addrOne (addr : Part → Int) (s : Sym) : Res Sym := do
  match s.part with
  | none => return s
  | some p =>
    ensure (0 < addr p) "symbol is not loaded"
    ensure (s.value != -1) "symbol without value"
    return { s with value := s.value + addr p }

lemma value_of_addrSyms {u : Unit} {syms : Array Sym}
  (h : addrSyms u (u.addrIn e) = .ok syms) (n : Nat) :
  (syms.getD n ⟨"", false, none, -1⟩).value = u.valueIn e n := by
  have hlist : u.syms.toList.mapM (addrOne (u.addrIn e)) = .ok syms.toList := by
    rw [← Array.toList_mapM]
    exact congrArg (Functor.map Array.toList) h
  rw [Array.getD_eq_getD_getElem?, valueIn, ← Array.getElem?_toList, ← Array.getElem?_toList]
  rcases mapM_ok_getElem? hlist n with ⟨hs, ht⟩ | ⟨s, t, hs, ht, hst⟩
  · rw [hs, ht]
    rfl
  · rw [hs, ht]
    dsimp only [Option.getD_some]
    cases hpart : s.part with
    | none =>
      rw [addrOne, hpart] at hst
      cases hst
      rfl
    | some p =>
      rw [addrOne, hpart] at hst
      obtain ⟨_, hpos, hst⟩ := bind_ok.1 hst
      obtain ⟨-, -, hst⟩ := bind_ok.1 hst
      cases hst
      -- The address is known to be positive, so the part has been loaded.
      have hloaded : u.loadedParts.contains p := by
        by_contra hnot
        rw [ensure_ok, addrIn, if_neg hnot] at hpos
        simp at hpos
      show s.value + u.addrIn e p = _
      rw [addrIn, if_pos hloaded, Int.add_comm]

/-! ## Linked units -/

variable (width : Nat → Nat)

/-- The bytes of two references do not overlap. -/
def Ref.Apart (r s : Ref) : Prop :=
  r.part = s.part →
    r.off.toNat + width r.kind ≤ s.off.toNat ∨ s.off.toNat + width s.kind ≤ r.off.toNat

instance (width : Nat → Nat) (r s : Ref) : Decidable (r.Apart width s) :=
  inferInstanceAs (Decidable (_ → _))

def Unit.Separate : Prop := u.references.toList.Pairwise (Ref.Apart width)

instance (u : Unit) (width : Nat → Nat) : Decidable (u.Separate width) :=
  inferInstanceAs (Decidable (u.references.toList.Pairwise _))

def Unit.placeIn (e : Exe) (r : Ref) : Int :=
  (e.sec (u.secNum r.part)).addr + r.off

def Unit.tgtIn (e : Exe) (r : Ref) : Int := u.valueIn e r.symbol + r.addend
def Unit.wordOf (r : Ref) : Nat := wordAt (u.chunk r.part).bytes r.off.toNat (width r.kind)

def Unit.wordIn (e : Exe) (r : Ref) : Nat :=
  wordAt (e.sec (u.secNum r.part)).data r.off.toNat (width r.kind)

section
variable {l : Linker} {width : Nat → Nat} {patch : Nat → Int → Int → Nat → Nat → Prop} {u : Unit}
  {withSyms : Bool}

lemma Linker.link_patches (hl : l.Patches width patch) (h : l.link u withSyms = .ok e)
  (hsep : u.Separate width) : ∀ r ∈ u.references,
    patch r.kind (u.placeIn e r) (u.tgtIn e r) (u.wordOf width r) (u.wordIn width e r) := by
  obtain ⟨e0, syms, e1, hlayout, hsymbols, hresolve, hsec⟩ := link_ok h
  rw [resolveAll_eq_foldlM] at hresolve
  have haddr : ∀ p, (e.sec (u.secNum p)).addr = (e0.sec (u.secNum p)).addr := by
    intro p
    rw [hsec, foldlM_addr hl hresolve]
  have hval : ∀ n, u.valueIn e n = u.valueIn e0 n := by
    intro n
    simp only [valueIn, haddr]
  have hdata : ∀ r ∈ u.references.toList, u.secNum r.part ≠ 0 ∧
      (e0.sec (u.secNum r.part)).data = (u.chunk r.part).bytes := by
    intro r hr
    have hpos := foldlM_nonempty hl hresolve r hr
    have hne : u.secNum r.part ≠ 0 := by
      intro hzero
      obtain ⟨n, hn⟩ := l.unlinked_sec_zero u withSyms
      rw [hzero, layout_data hlayout, hn] at hpos
      exact Nat.lt_irrefl 0 hpos
    exact ⟨hne, by rw [layout_data hlayout, l.unlinked_sec withSyms hne]⟩
  intro r hr
  have hr' : r ∈ u.references.toList := Array.mem_toList_iff.2 hr
  have hpatch := foldlM_patches hl (hsep.imp_of_mem fun hr _ himp heq =>
    himp (secNum_inj heq (hdata _ hr).1)) hresolve r hr'
  rw [(hdata r hr').2, tgtOf, value_of_addrSyms hsymbols] at hpatch
  rw [placeIn, tgtIn, wordIn, haddr, hval, hsec]
  exact hpatch

end
end Retarget.Asm

/-! ## Records in files -/

namespace Retarget.Elf
open List
open Asm (length_leBytes ofLeBytes_leBytes)
variable {α : Type} {f : Format α} {w : Wire} {ws : List Wire} {v : Int} {vs : List Int} {x y : α}

lemma readField_append (hw : 0 < w.bytes) (hv : w.holds v) (bs : List UInt8) :
  readField w (leBytes w.bytes v ++ bs) = v := by
  rw [readField, take_left' (length_leBytes _ _), ofLeBytes_leBytes]
  rw [Wire.holds] at hv
  split at hv
  next hsigned =>
    rw [if_pos hsigned]
    exact (Enc.signedOf_lowBits_eq_iff v (by omega)).2 (by simpa using hv)
  next huns =>
    rw [if_neg huns]
    obtain ⟨hlo, hhi⟩ := Bool.and_eq_true_iff.1 hv
    exact Int.emod_eq_of_lt (of_decide_eq_true hlo) (of_decide_eq_true hhi)

lemma pack_fitting (hpos : ∀ w ∈ ws, 0 < w.bytes) (h : Forall₂ (fun w v => w.holds v) ws vs) :
  ∃ bs, pack ws vs = .ok bs ∧ bs.length = recordSize ws ∧ readFields ws bs = vs := by
  induction h with
  | nil => exact ⟨[], rfl, rfl, rfl⟩
  | @cons w v ws vs hv _ ih =>
    obtain ⟨hw, hpos⟩ := forall_mem_cons.1 hpos
    obtain ⟨bs, hpack, hsize, hread⟩ := ih hpos
    refine ⟨leBytes w.bytes v ++ bs, ?_, ?_, ?_⟩
    · rw [pack, if_pos hv, hpack]
      rfl
    · rw [length_append, length_leBytes, hsize, recordSize, recordSize, foldr_cons]
    · rw [readFields, readField_append hw hv, drop_left' (length_leBytes _ _), hread]

/-- If the numbers of a record fit, it is stored in the bytes of its format, and `y` is read from
them. -/
def Restores (f : Format α) (x y : α) (stored : Res (List UInt8) := f.pack x) : Prop :=
  Forall₂ (fun w v => w.holds v) f.wires (f.values x) →
    ∃ bs, stored = .ok bs ∧ bs.length = f.size ∧ f.unpack bs = .ok y

lemma restores_of_make (hpos : ∀ w ∈ f.wires, 0 < w.bytes)
  (hmake : f.make (f.values x) = some y) : Restores f x y := by
  intro hfits
  obtain ⟨bs, hpack, hsize, hread⟩ := pack_fitting hpos hfits
  refine ⟨bs, hpack, hsize, ?_⟩
  rw [Format.unpack, unpack, if_pos hsize, hread]
  show orFault _ (f.make (f.values x)) = _
  rw [hmake]
  rfl

/-- The bytes of the identification are signed numbers, and the kind of a symbol has four bits. -/
theorem records_restored (c : FileClass) :
  (∀ x : Ident, x.magic.length = 4 → Restores Ident.format x x) ∧
  (∀ x, Restores (Header.format c) x x) ∧
  (∀ x, Restores (Sec.format c) x { x with name := "", data := #[] }) ∧
    (∀ x, Restores (Seg.format c) x
      { x with isPseudo := false, isAuxiliary := false, hardAlign := false, secs := [] }) ∧
    ∀ x : Sym, 0 ≤ x.kind → x.kind < 16 →
      Restores (Sym.format c) x { x with name := "" } (x.pack c) := by
  refine ⟨fun x hmagic => restores_of_make (by decide) ?_,
    fun x => restores_of_make (by cases c <;> decide) rfl,
    fun x => restores_of_make (by cases c <;> decide) rfl,
    fun x => by cases c <;> exact restores_of_make (by decide) rfl, fun x hlo hhi hfits => ?_⟩
  · rcases x with ⟨_ | ⟨_, _ | ⟨_, _ | ⟨_, _ | ⟨_, _ | _⟩⟩⟩⟩, _⟩ <;>
      simp [Ident.format, Ident.fitted] at hmagic ⊢
  · have hbind : (x.bind * 16 + x.kind) / 16 = x.bind := by omega
    have hkind : (x.bind * 16 + x.kind) % 16 = x.kind := by omega
    have hval : (x.value != -1) = true := by
      cases c <;> simp [Sym.format, Wire.holds, Wire.u32, Wire.u64] at hfits ⊢ <;> omega
    rw [Sym.pack, hval]
    have hmake : (Sym.format c).make ((Sym.format c).values x) = some { x with name := "" } := by
      cases c <;> simp [Sym.format, hbind, hkind]
    exact restores_of_make (by cases c <;> decide) hmake hfits

end Retarget.Elf
