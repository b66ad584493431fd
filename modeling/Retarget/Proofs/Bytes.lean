import Retarget.Encoding.Word
import Retarget.Text.Token
import Mathlib.Data.List.Basic
import Mathlib.Data.List.TakeWhile

/-!
# Numbers and strings as bytes

What is written is read again, and reading ends where writing did.
-/

namespace Retarget.Enc.Leb128
open List

lemma readU_append (n : Nat) (rest : List UInt8) : readU (writeU n ++ rest) = .ok (n, rest) := by
  fun_induction writeU n with
  | case1 n h =>
    have hn : (UInt8.ofNat n).toNat = n := by simp; omega
    simp [readU, UInt8.lt_iff_toNat_lt, hn, h]
  | case2 n h ih =>
    have hn : (UInt8.ofNat (128 + n % 128)).toNat = 128 + n % 128 := by simp; omega
    rw [cons_append, readU, if_neg (by rw [UInt8.lt_iff_toNat_lt, hn]; simp), ih]
    simp only [Except.map]
    congr 2
    omega

lemma readSigned_append (n : Int) (rest : List UInt8) :
  readSigned (writeS n ++ rest) = .ok (n, rest) := by
  fun_induction writeS n with
  | case1 n h =>
    have hn : (UInt8.ofNat (n % 128).toNat).toNat = (n % 128).toNat := by simp; omega
    simp only [cons_append, readSigned, UInt8.lt_iff_toNat_lt]
    grind
  | case2 n h ih =>
    have hn : (UInt8.ofNat (128 + (n % 128).toNat)).toNat = 128 + (n % 128).toNat := by
      simp; omega
    rw [cons_append, readSigned, if_neg (by rw [UInt8.lt_iff_toNat_lt]; simp; omega),
      if_neg (by rw [UInt8.lt_iff_toNat_lt, hn]; simp), ih]
    simp only [Except.map]
    congr 2
    omega

lemma length_writeU_le {bs rest : List UInt8} {n : Nat}
  (h : readU bs = .ok (n, rest)) : (writeU n).length ≤ bs.length := by
  fun_induction readU bs generalizing n with
  | case1 => cases h
  | case2 b r hb =>
    cases h
    simp [writeU, show b.toNat < 128 from UInt8.lt_iff_toNat_lt.1 hb]
  | case3 b r hb ih =>
    cases hr : readU r with
    | error => rw [hr] at h; cases h
    | ok p =>
      rw [hr] at h
      cases h
      rw [writeU]
      split
      · simp
      · have hp : (b.toNat % 128 + 128 * p.1) / 128 = p.1 := by omega
        rw [hp]
        exact Nat.succ_le_succ (ih hr)

lemma length_writeS_le {bs rest : List UInt8} {n : Int}
  (h : readSigned bs = .ok (n, rest)) : (writeS n).length ≤ bs.length := by
  fun_induction readSigned bs generalizing n with
  | case1 => cases h
  | case2 b r hb =>
    cases h
    rw [writeS, if_pos (by have := UInt8.lt_iff_toNat_lt.1 hb; simp at this; omega)]
    simp
  | case3 b r hb hb' =>
    cases h
    rw [UInt8.lt_iff_toNat_lt] at hb hb'
    rw [writeS, if_pos (by simp at hb hb'; omega)]
    simp
  | case4 b r hb hb' ih =>
    cases hr : readSigned r with
    | error => rw [hr] at h; cases h
    | ok p =>
      rw [hr] at h
      cases h
      rw [writeS]
      split
      · simp
      · have hp : ((b.toNat % 128 : Nat) + 128 * p.1) / 128 = p.1 := by omega
        rw [hp]
        exact Nat.succ_le_succ (ih hr)

/-- What is read back is what was written, whatever follows it, and nothing shorter is read as it. -/
theorem shortest (rest : List UInt8) : (∀ n, readU (writeU n ++ rest) = .ok (n, rest) ∧
    ∀ bs rest, bs.length < (writeU n).length → readU bs ≠ .ok (n, rest)) ∧
  ∀ n, readSigned (writeS n ++ rest) = .ok (n, rest) ∧
    ∀ bs rest, bs.length < (writeS n).length → readSigned bs ≠ .ok (n, rest) :=
  ⟨fun n => ⟨readU_append n rest, fun _ _ hlt h => Nat.not_lt.2 (length_writeU_le h) hlt⟩,
  fun n => ⟨readSigned_append n rest, fun _ _ hlt h => Nat.not_lt.2 (length_writeS_le h) hlt⟩⟩

end Retarget.Enc.Leb128

/-! ## Quoted strings -/

namespace Retarget.Text
open List

lemma pairs_hex : ∀ n < 256, (hex 2 n).toList.length = 2 ∧
  ((hex 2 n).toList.all fun c => c != '"' && c != '\\') ∧
  (pairs (hex 2 n).toList).toOption = some [.ofNat n] := by
  decide +kernel

lemma utf8EncodeChar_byte : ∀ n < 127, String.utf8EncodeChar (Char.ofNat n) = [UInt8.ofNat n] := by
  decide

/-- What is written for a byte is read as this byte, and as a part of a quoted string. -/
lemma read_escapeByte (b : UInt8) (cs : List Char) : unescape ((escapeByte b).toList ++ cs) =
  (unescape cs).map (b :: ·) ∧ quotedTail '"' ((escapeByte b).toList ++ cs) =
  (quotedTail '"' cs).map fun (t, u) => ((escapeByte b).toList ++ t, u) := by
  by_cases hnmd : b = 10 ∨ b = 34 ∨ b = 92
  · rcases hnmd with rfl | rfl | rfl <;> simp [escapeByte, unescape, quotedTail] <;> rfl
  rw [not_or, not_or] at hnmd
  rw [escapeByte, if_neg hnmd.1, if_neg hnmd.2.1, if_neg hnmd.2.2]
  split
  next h =>
    have hb : b.toNat < 127 := by
      simpa [UInt8.le_iff_toNat_le, Nat.lt_succ_iff] using (Bool.and_eq_true_iff.1 h).2
    have hc := utf8EncodeChar_byte _ hb
    generalize Char.ofNat b.toNat = c at hc ⊢
    rw [UInt8.ofNat_toNat] at hc
    have hquote' : c ≠ '"' := by rintro rfl; simp_all [String.utf8EncodeChar]
    have hslash' : c ≠ '\\' := by rintro rfl; simp_all [String.utf8EncodeChar]
    simp [unescape, quotedTail, hquote', hslash', hc]
    rfl
  next =>
    obtain ⟨hlen, hplain, hpairs⟩ := pairs_hex _ b.toNat_lt
    obtain ⟨x, y, hxy⟩ := length_eq_two.1 hlen
    simp [hxy] at hplain hpairs
    have hbyte : hexByte x y = .ok b := by
      cases h : hexByte x y <;>
        simp_all [pairs, bind, pure, Except.bind, Except.pure, Except.toOption]
    rw [String.toList_append, hxy]
    simp [unescape, quotedTail, hbyte, hplain]
    exact ⟨rfl, rfl⟩

lemma toList_escape (b : UInt8) (bs : Bytes) :
  (escape (b :: bs)).toList = (escapeByte b).toList ++ (escape bs).toList := by
  simp [escape]

lemma unescape_escape (bs : Bytes) : unescape (escape bs).toList = .ok bs := by
  induction bs with
  | nil => simp [escape, unescape]
  | cons b bs ih => rw [toList_escape, (read_escapeByte b _).1, ih]; rfl

lemma quotedTail_escape (bs : Bytes) (cs : List Char) :
  quotedTail '"' ((escape bs).toList ++ '"' :: cs) = some ((escape bs).toList ++ ['"'], cs) := by
  induction bs with
  | nil => simp [escape, quotedTail]
  | cons b bs ih =>
    rw [toList_escape, append_assoc, (read_escapeByte b _).2, ih, append_assoc]
    rfl

lemma lineTokens_cons {line rest t : String} {c : Char} {w : List Char} (ht : t.toList = c :: w)
  (hscan : scan line.toList = t :: scan rest.toList) (hc : c ∉ ['=', ',', ';', '[', ']'])
  (hend : c = '"' → t.endsWith "\"") : lineTokens line = (lineTokens rest).map (t :: ·) := by
  have hsta : (t.startsWith "\"" && !t.endsWith "\"") = false := by
    by_cases h : c = '"'
    · simp [hend h]
    · simp [ht, Ne.symm h]
  simp at hc
  simp only [lineTokens, hscan, checkTokens, ← String.toList_inj, ht, hsta]
  simp [hc]

lemma toList_quote (bs : Bytes) : (quote bs).toList = '"' :: ((escape bs).toList ++ ['"']) := by
  simp [quote]

lemma endsWith_quote (bs : Bytes) : (quote bs).endsWith "\"" := by
  rw [String.endsWith_eq_endsWith_toSlice, String.Slice.endsWith_string_iff]
  simp [quote]

/-- A quoted string is one token, whatever follows it. -/
lemma lineTokens_quote (bs : Bytes) (rest : String) :
  lineTokens (quote bs ++ rest) = (lineTokens rest).map (quote bs :: ·) := by
  refine lineTokens_cons (toList_quote bs) ?_ (by decide) fun _ => endsWith_quote bs
  rw [String.toList_append, toList_quote, cons_append, append_assoc, scan, if_pos rfl]
  split <;> rename_i h <;> rw [singleton_append, quotedTail_escape] at h <;> cases h
  rw [← toList_quote, String.ofList_toList]

lemma scan_blank (cs : List Char) : scan (' ' :: cs) = scan cs := by simp [scan, endsWord]

lemma lineTokens_word {t : String} (hne : t ≠ "")
  (ht : ∀ c ∈ t.toList, endsWord c = false ∧ c ≠ ',') (rest : String) :
  lineTokens (t ++ (" " ++ rest)) = (lineTokens rest).map (t :: ·) := by
  obtain ⟨c, w, hcw⟩ := exists_cons_of_ne_nil (mt String.toList_eq_nil_iff.1 hne)
  rw [hcw] at ht
  have hin : ∀ d ∈ w, !endsWord d := fun d hd => by rw [(ht d (.tail c hd)).1]; rfl
  have hends := ht c (.head w)
  simp [endsWord] at hends
  refine lineTokens_cons hcw ?_ (by simp [hends]) (by simp [hends])
  simp only [String.toList_append, hcw, cons_append, scan, takeWhile_append_of_pos hin,
    dropWhile_append_of_pos hin]
  simp [endsWord, hends, scan_blank, ← hcw]

lemma lineTokens_comment {note : String} (h : '\n' ∉ note.toList) :
  lineTokens (" #" ++ note) = .ok ["#" ++ note] := by
  have hin : ∀ c ∈ note.toList, c != '\n' := fun c hc => bne_iff_ne.2 (ne_of_mem_of_not_mem hc h)
  have htake := takeWhile_eq_self_iff.2 hin
  have hdrop := dropWhile_eq_nil_iff.2 hin
  have hscan : scan (" #" ++ note).toList = ["#" ++ note] ++ scan "".toList := by
    simp [scan_blank, scan, htake, hdrop]
  have hnote : ("#" ++ note).toList = '#' :: note.toList := by simp
  rw [lineTokens_cons hnote hscan (by simp) (by simp)]
  simp [lineTokens, scan]
  rfl

/-- A string on a line is one token, whatever bytes it stands for, and is read as these. -/
theorem lineTokens_data (bs : Bytes) :
  unescape (escape bs).toList = .ok bs ∧ unquote (quote bs) = .ok bs ∧
  (∀ n ≠ "", (∀ c ∈ n.toList, endsWord c = false ∧ c ≠ ',') → ∀ rest,
    lineTokens (".data " ++ n ++ " " ++ quote bs ++ rest) =
      (lineTokens rest).map ([".data", n, quote bs] ++ ·)) ∧
  ∀ note : String, '\n' ∉ note.toList → lineTokens (" #" ++ note) = .ok ["#" ++ note] := by
  refine ⟨unescape_escape bs, ?_, fun n hne hn rest => ?_, fun _ => lineTokens_comment⟩
  · have hsta : (quote bs).startsWith "\"" := by simp [toList_quote]
    have hempty : (quote bs).isEmpty = false := by simp [quote]
    simp [unquote, hempty, hsta, endsWith_quote, toList_quote, unescape_escape]
    rfl
  · have hline : ".data " ++ n ++ " " ++ quote bs ++ rest =
        ".data" ++ (" " ++ (n ++ (" " ++ (quote bs ++ rest)))) := by
      simp [← String.toList_inj]
    rw [hline, lineTokens_word (by decide) (by simp [endsWord]), lineTokens_word hne hn, lineTokens_quote]
    cases lineTokens rest <;> rfl

end Retarget.Text
