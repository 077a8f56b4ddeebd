import Mathlib.Data.List.TakeWhile
import Mathlib.Data.UInt

/-!
# Texts of C

Strings that a null byte ends, their bytes in UTF-8, the words between blanks, and the decimal
conversions of the standard library: what they print and what they read back. Where the bytes
of a text matter, a `Char` stands for one of them.
-/

namespace CText

/-! ## Strings -/

/-- The C string that a buffer holds. -/
def cString (buffer : List Char) : List Char := buffer.takeWhile fun c => c ≠ '\x00'

section strings

variable {line : List Char}

theorem cString_cons (c : Char) (line : List Char) :
    cString (c :: line) = if c = '\x00' then [] else c :: cString line := by
  by_cases hc : c = '\x00'
  · simp [cString, hc]
  · simp [cString, hc]

theorem cString_of_no_null (h : '\x00' ∉ line) : cString line = line :=
  List.takeWhile_eq_self_iff.mpr fun c hc => by
    have hne : c ≠ '\x00' := fun heq => h (heq ▸ hc)
    simpa using hne

theorem cString_length_le (line : List Char) : (cString line).length ≤ line.length :=
  (List.takeWhile_sublist _).length_le

theorem cString_append_of_null (h : '\x00' ∈ line) (rest : List Char) :
    cString (line ++ rest) = cString line := by
  induction line with
  | nil => simp at h
  | cons c line ih =>
    by_cases hc : c = '\x00'
    · rw [List.cons_append, cString_cons, cString_cons, if_pos hc, if_pos hc]
    · have hmem : '\x00' ∈ line := (List.mem_cons.mp h).resolve_left (Ne.symm hc)
      rw [List.cons_append, cString_cons, cString_cons, ih hmem]

theorem cString_eq_nil : cString line = [] ↔ line = [] ∨ line.head? = some '\x00' := by
  cases line with
  | nil => simp [cString]
  | cons c line => simp [cString_cons]

theorem no_null_cString (line : List Char) : '\x00' ∉ cString line := fun h => by
  have := List.mem_takeWhile_imp h
  simp at this

theorem cString_length_lt (h : '\x00' ∈ line) : (cString line).length < line.length := by
  have hstart : cString line <+: line := List.takeWhile_prefix _
  refine Nat.lt_of_le_of_ne hstart.length_le fun heq => no_null_cString line ?_
  rwa [hstart.eq_of_length heq]

end strings

/-! ## Bytes -/

/-- The bytes of characters in UTF-8. -/
def utf8 (cs : List Char) : List Char :=
  cs.flatMap fun c => (String.utf8EncodeChar c).map fun b => Char.ofNat b.toNat

/-- The bytes of a text. -/
def bytes (s : String) : List Char := utf8 s.toList

/-- The text with these bytes. -/
def ofBytes (bs : List Char) : String :=
  (String.fromUTF8? (bs.map fun c => UInt8.ofNat c.toNat).toByteArray).getD ""

section bytes

variable {c : Char} {cs : List Char}

theorem bytes_ofList (cs : List Char) : bytes (String.ofList cs) = utf8 cs := by
  rw [bytes, String.toList_ofList]

@[simp] theorem utf8_nil : utf8 [] = [] := rfl

@[simp] theorem utf8_append (a b : List Char) : utf8 (a ++ b) = utf8 a ++ utf8 b :=
  List.flatMap_append

theorem utf8_cons (c : Char) (cs : List Char) : utf8 (c :: cs) = utf8 [c] ++ utf8 cs :=
  utf8_append [c] cs

/-- ASCII characters are their own bytes. -/
theorem utf8_cons_ascii (h : c.toNat < 128) (cs : List Char) : utf8 (c :: cs) = c :: utf8 cs := by
  have hle : c.val ≤ 0x7f := Nat.le_of_lt_succ h
  have hsize : c.utf8Size = 1 := if_pos hle
  have hbyte : c.val.toUInt8.toNat = c.toNat := by
    rw [UInt32.toNat_toUInt8]
    exact Nat.mod_eq_of_lt (Nat.lt_trans h (by decide))
  rw [utf8, List.flatMap_cons, String.utf8EncodeChar_eq_singleton hsize, List.map_singleton,
    hbyte, Char.ofNat_toNat]
  rfl

theorem utf8_ascii (h : ∀ c ∈ cs, c.toNat < 128) : utf8 cs = cs := by
  induction cs with
  | nil => rfl
  | cons c cs ih =>
    obtain ⟨hc, hcs⟩ := List.forall_mem_cons.mp h
    rw [utf8_cons_ascii hc, ih hcs]

/-- The last character is the last byte, when it is ASCII. -/
theorem utf8_dropLast (h : ∀ c ∈ cs.getLast?, c.toNat < 128) :
    utf8 cs.dropLast = (utf8 cs).dropLast := by
  cases cs using List.reverseRecOn with
  | nil => rfl
  | append_singleton cs c =>
    have hc : c.toNat < 128 := h c (by simp)
    rw [List.dropLast_concat, utf8_append, utf8_cons_ascii hc]
    exact List.dropLast_concat.symm

theorem bytes_ascii (h : ∀ c ∈ cs, c.toNat < 128) : bytes (String.ofList cs) = cs := by
  rw [bytes_ofList, utf8_ascii h]

theorem map_utf8 (cs : List Char) :
    (utf8 cs).map (fun c => UInt8.ofNat c.toNat) = cs.flatMap String.utf8EncodeChar := by
  have hback : ∀ b : UInt8, UInt8.ofNat (Char.ofNat b.toNat).toNat = b := by
    intro b
    have hlt : b.toNat < 256 := b.toNat_lt
    have hvalid : b.toNat.isValidChar := .inl (by omega)
    rw [Char.ofNat, dif_pos hvalid]
    exact UInt8.ofNat_toNat
  rw [utf8, List.map_flatMap]
  simp [Function.comp_def, hback]

/-- The bytes tell the text. -/
theorem ofBytes_utf8 (cs : List Char) : ofBytes (utf8 cs) = String.ofList cs := by
  have hbytes : (cs.flatMap String.utf8EncodeChar).toByteArray =
      (String.ofList cs).toByteArray := by
    rw [String.toByteArray_ofList]
    rfl
  rw [ofBytes, map_utf8, hbytes, String.fromUTF8?, dif_pos (String.ofList cs).isValidUTF8]
  rfl

end bytes

/-! ## Words -/

/-- What stands between the blanks. -/
def words (s : List Char) : List (List Char) := (s.splitOn ' ').filter fun word => word ≠ []

/-- The tokens of `strtok` with the delimiter `" "`. -/
def strtok (line : List Char) : List (List Char) := words (cString line)

/-- Fields with one blank between them. -/
def spaced : List (List Char) → List Char
  | [] => []
  | [field] => field
  | field :: fields => field ++ ' ' :: spaced fields

section words

variable {a b w : List Char} {fields : List (List Char)}

theorem words_append (a b : List Char) : words (a ++ ' ' :: b) = words a ++ words b := by
  rw [words, List.splitOn_append_cons_self, List.filter_append]
  rfl

theorem words_of_no_blank (hne : w ≠ []) (h : ' ' ∉ w) : words w = [w] := by
  rw [words, List.splitOn_eq_singleton h, List.filter_cons_of_pos (by simpa using hne),
    List.filter_nil]

theorem words_ne_nil {c : Char} (hc : c ∈ w) (hblank : c ≠ ' ') : words w ≠ [] := by
  induction hn : w.length using Nat.strong_induction_on generalizing w with
  | _ n ih =>
    by_cases hmem : ' ' ∈ w
    · obtain ⟨a, b, rfl⟩ := List.append_of_mem hmem
      rw [List.length_append, List.length_cons] at hn
      rw [words_append]
      intro hnil
      obtain ⟨ha, hb⟩ := List.append_eq_nil_iff.mp hnil
      rcases List.mem_append.mp hc with hc | hc
      · exact ih a.length (by omega) hc rfl ha
      · rcases List.mem_cons.mp hc with rfl | hc
        · exact hblank rfl
        · exact ih b.length (by omega) hc rfl hb
    · rw [words_of_no_blank (List.ne_nil_of_mem hc) hmem]
      exact List.cons_ne_nil _ _

theorem spaced_cons {field : List Char} (h : fields ≠ []) :
    spaced (field :: fields) = field ++ ' ' :: spaced fields := by
  obtain ⟨f, fs, rfl⟩ := List.exists_cons_of_ne_nil h
  rfl

theorem words_spaced (first : List (List Char)) (h : fields ≠ []) (ending : List Char) :
    words (spaced (first ++ fields) ++ ending) =
      first.flatMap words ++ words (spaced fields ++ ending) := by
  induction first with
  | nil => rfl
  | cons field first ih =>
    have hne : first ++ fields ≠ [] := List.append_ne_nil_of_right_ne_nil _ h
    rw [List.cons_append, spaced_cons hne, List.append_assoc, List.cons_append, words_append, ih,
      List.flatMap_cons, List.append_assoc]

theorem mem_spaced {c : Char} (h : c ∈ spaced fields) : c = ' ' ∨ ∃ field ∈ fields, c ∈ field := by
  induction fields with
  | nil => cases h
  | cons field fields ih =>
    by_cases hnil : fields = []
    · rw [hnil] at h
      exact .inr ⟨field, List.mem_cons_self, h⟩
    · rw [spaced_cons hnil, List.mem_append, List.mem_cons] at h
      rcases h with h | rfl | h
      · exact .inr ⟨field, List.mem_cons_self, h⟩
      · exact .inl rfl
      · rcases ih h with rfl | ⟨f, hf, hc⟩
        · exact .inl rfl
        · exact .inr ⟨f, List.mem_cons_of_mem _ hf, hc⟩

/-- Fields without blanks are tokens. -/
theorem flatMap_words (h : ∀ field ∈ fields, field ≠ [] ∧ ' ' ∉ field) :
    fields.flatMap words = fields := by
  induction fields with
  | nil => rfl
  | cons field fields ih =>
    rw [List.forall_mem_cons] at h
    rw [List.flatMap_cons, ih h.2, words_of_no_blank h.1.1 h.1.2, List.singleton_append]

end words

/-! ## Decimal numbers -/

/-- `isspace` in the C locale. -/
def isspace (c : Char) : Bool :=
  c == ' ' || c == '\t' || c == '\n' || c == '\x0b' || c == '\x0c' || c == '\r'

def digitsValue (ds : List Char) : Nat :=
  ds.foldl (fun n c => 10 * n + (c.toNat - '0'.toNat)) 0

/-- Whether there is a minus sign, and what follows the sign. -/
def numberSign : List Char → Bool × List Char
  | '-' :: s => (true, s)
  | '+' :: s => (false, s)
  | s => (false, s)

/-- The C conversion of a mathematical integer read by `strtol` and stored to
an `int`: clamped to 64 bits, then truncated to 32. -/
def longToInt (v : Int) : Int :=
  Int.bmod (max (-9223372036854775808) (min v 9223372036854775807)) 4294967296

/-- `sscanf(s, "%d", &number) == 1`, with the number stored. -/
def sscanfInt (s : String) : Option Int :=
  let cs := s.toList.dropWhile isspace
  let (negative, rest) := match cs with
    | '-' :: r => (true, r)
    | '+' :: r => (false, r)
    | r => (false, r)
  let ds := rest.takeWhile Char.isDigit
  if ds = [] then none
  else some (longToInt (if negative then -(digitsValue ds : Int) else digitsValue ds))

/-- `atoi`, which yields 0 where `sscanf` stores nothing. -/
def atoi (s : String) : Int := (sscanfInt s).getD 0

/-- `strtoul` in base 10, where there is something to convert. -/
def strtoul (s : List Char) : Option UInt64 :=
  let (negative, rest) := numberSign (s.dropWhile isspace)
  let ds := rest.takeWhile Char.isDigit
  if ds = [] then none
  else if 18446744073709551616 ≤ digitsValue ds then some 18446744073709551615
  else some (if negative then -UInt64.ofNat (digitsValue ds) else UInt64.ofNat (digitsValue ds))

/-- What `"%d"` prints. -/
def decimal (v : Int) : List Char := (toString v).toList

example : sscanfInt " 12x" = some 12 := by decide
example : sscanfInt "4294967299" = some 3 := by decide
example : sscanfInt "x" = none := by decide

section digits

variable {c : Char} {ds : List Char} {v : Int}

theorem digitsValue_concat (ds : List Char) (c : Char) :
    digitsValue (ds ++ [c]) = 10 * digitsValue ds + (c.toNat - '0'.toNat) := by
  simp [digitsValue]

theorem digitsValue_lt (h : ∀ c ∈ ds, c.isDigit = true) : digitsValue ds < 10 ^ ds.length := by
  induction ds using List.reverseRecOn with
  | nil => decide
  | append_singleton ds c ih =>
    have hds := ih fun d hd => h d (by simp [hd])
    have hc := (Char.isDigit_iff_toNat.mp (h c (by simp))).2
    have hzero : '0'.toNat = 48 := rfl
    have hnine : '9'.toNat = 57 := rfl
    rw [digitsValue_concat, List.length_append, List.length_singleton, Nat.pow_succ]
    omega

theorem digitChar_value {d : Nat} (h : d < 10) : (Nat.digitChar d).toNat - '0'.toNat = d := by
  have : ∀ d < 10, (Nat.digitChar d).toNat - '0'.toNat = d := by decide
  exact this d h

theorem digitsValue_toDigits (n : Nat) : digitsValue (Nat.toDigits 10 n) = n := by
  induction n using Nat.strongRecOn with
  | ind n ih =>
    rw [Nat.toDigits_eq_if (by decide)]
    split_ifs with hlt
    · have hone := digitsValue_concat [] n.digitChar
      rw [digitChar_value hlt] at hone
      simpa [digitsValue] using hone
    · rw [digitsValue_concat, ih (n / 10) (by omega), digitChar_value (Nat.mod_lt n (by decide))]
      omega

theorem isDigit_toDigits (n : Nat) : ∀ c ∈ Nat.toDigits 10 n, c.isDigit = true := fun _ hc =>
  Nat.isDigit_of_mem_toDigits (by decide) (by decide) hc

theorem isspace_of_isDigit (hc : c.isDigit = true) : isspace c = false := by
  cases hs : isspace c with
  | false => rfl
  | true =>
    simp only [isspace, Bool.or_eq_true, beq_iff_eq] at hs
    rcases hs with ((((rfl | rfl) | rfl) | rfl) | rfl) | rfl <;> exact absurd hc (by decide)

theorem numberSign_of_isDigit {cs : List Char} (hc : c.isDigit = true) :
    numberSign (c :: cs) = (false, c :: cs) := by
  unfold numberSign
  split
  next h => exact absurd hc (by rw [(List.cons.inj h).1]; decide)
  next h => exact absurd hc (by rw [(List.cons.inj h).1]; decide)
  next => rfl

/-! ### What is printed -/

theorem decimal_natCast (n : Nat) : decimal n = Nat.toDigits 10 n := by
  rw [decimal, Int.toString_eq_repr, Int.repr_eq_if, if_pos (Int.natCast_nonneg n),
    Nat.repr_eq_ofList_toDigits, String.toList_ofList, Int.toNat_natCast]

theorem decimal_of_neg (h : ¬ 0 ≤ v) : decimal v = '-' :: Nat.toDigits 10 (-v).toNat := by
  rw [decimal, Int.toString_eq_repr, Int.repr_eq_if, if_neg h, Nat.repr_eq_ofList_toDigits]
  simp

theorem decimal_digits (n : Nat) : ∀ c ∈ decimal n, c.isDigit = true := by
  rw [decimal_natCast]
  exact isDigit_toDigits n

theorem decimal_char (h : c ∈ decimal v) : c.isDigit = true ∨ c = '-' := by
  by_cases hv : 0 ≤ v
  · obtain ⟨n, rfl⟩ := Int.eq_ofNat_of_zero_le hv
    exact .inl (decimal_digits n c h)
  · rw [decimal_of_neg hv, List.mem_cons] at h
    rcases h with rfl | h
    · exact .inr rfl
    · exact .inl (isDigit_toDigits _ c h)

theorem decimal_ne_nil (v : Int) : decimal v ≠ [] := by
  by_cases hv : 0 ≤ v
  · obtain ⟨n, rfl⟩ := Int.eq_ofNat_of_zero_le hv
    rw [decimal_natCast]
    exact Nat.toDigits_ne_nil
  · rw [decimal_of_neg hv]
    exact List.cons_ne_nil _ _

theorem decimal_not_mem (v : Int) (hc : c.isDigit = false) (hminus : c ≠ '-') :
    c ∉ decimal v := by
  intro h
  rcases decimal_char h with hdigit | rfl
  · rw [hc] at hdigit
    cases hdigit
  · exact hminus rfl

theorem decimal_ascii (v : Int) : ∀ c ∈ decimal v, c.toNat < 128 := by
  intro c hc
  rcases decimal_char hc with hdigit | rfl
  · have hbound : c.toNat ≤ 57 := by
      simp only [Char.isDigit, Bool.and_eq_true, decide_eq_true_eq] at hdigit
      exact hdigit.2
    omega
  · decide

/-! ### What is read back -/

/-- What is read back from digits, without and with a minus sign. -/
theorem sscanfInt_digits (hne : ds ≠ []) (hd : ∀ c ∈ ds, c.isDigit = true) :
    sscanfInt (String.ofList ds) = some (longToInt (digitsValue ds)) ∧
      sscanfInt (String.ofList ('-' :: ds)) = some (longToInt (-(digitsValue ds : Int))) := by
  have htake : ds.takeWhile Char.isDigit = ds := List.takeWhile_eq_self_iff.mpr hd
  obtain ⟨c, cs, rfl⟩ := List.exists_cons_of_ne_nil hne
  have hc := hd c (by simp)
  have hspace := isspace_of_isDigit hc
  have hminus : c ≠ '-' := by
    rintro rfl
    exact absurd hc (by decide)
  have hplus : c ≠ '+' := by
    rintro rfl
    exact absurd hc (by decide)
  constructor
  · simp [sscanfInt, hspace, htake, hminus, hplus]
  · have hdash : isspace '-' = false := by decide
    simp [sscanfInt, hdash, htake]

theorem longToInt_int (hlow : -2147483648 ≤ v) (hhigh : v ≤ 2147483647) : longToInt v = v := by
  have hclamp : max (-9223372036854775808) (min v 9223372036854775807) = v := by omega
  rw [longToInt, hclamp]
  exact Int.bmod_eq_of_le (by omega) (by omega)

theorem atoi_range (s : String) : -2147483648 ≤ atoi s ∧ atoi s ≤ 2147483647 := by
  have hrange : ∀ v, -2147483648 ≤ longToInt v ∧ longToInt v ≤ 2147483647 := by
    intro v
    have hlow := Int.le_bmod (x := max (-9223372036854775808) (min v 9223372036854775807))
      (m := 4294967296) (by decide)
    have hhigh := Int.bmod_le (x := max (-9223372036854775808) (min v 9223372036854775807))
      (m := 4294967296) (by decide)
    unfold longToInt
    omega
  rw [atoi]
  cases hs : sscanfInt s with
  | none => decide
  | some v =>
    simp only [sscanfInt] at hs
    split_ifs at hs <;> exact Option.some.inj hs ▸ hrange _

/-- An `int` that `sprintf("%d")` wrote is what `atoi` reads. -/
theorem atoi_toString (hlow : -2147483648 ≤ v) (hhigh : v ≤ 2147483647) :
    atoi (toString v) = v := by
  rw [Int.toString_eq_repr, Int.repr_eq_if, atoi]
  split_ifs with hneg
  · rw [Nat.repr_eq_ofList_toDigits,
      (sscanfInt_digits Nat.toDigits_ne_nil (isDigit_toDigits v.toNat)).1, digitsValue_toDigits,
      Int.toNat_of_nonneg hneg, longToInt_int hlow hhigh]
    rfl
  · have hminus : "-" ++ (-v).toNat.repr = String.ofList ('-' :: Nat.toDigits 10 (-v).toNat) := by
      rw [← String.toList_inj]
      simp
    rw [hminus, (sscanfInt_digits Nat.toDigits_ne_nil (isDigit_toDigits (-v).toNat)).2,
      digitsValue_toDigits, Int.toNat_of_nonneg (by omega), Int.neg_neg, longToInt_int hlow hhigh]
    rfl

/-- The counters are read back. -/
theorem strtoul_decimal (n : UInt64) : strtoul (decimal n.toNat) = some n := by
  have hvalue : digitsValue (decimal n.toNat) = n.toNat := by
    rw [decimal_natCast, digitsValue_toDigits]
  have hdigits := decimal_digits n.toNat
  have htake : (decimal n.toNat).takeWhile Char.isDigit = decimal n.toNat :=
    List.takeWhile_eq_self_iff.mpr hdigits
  obtain ⟨c, cs, heq⟩ := List.exists_cons_of_ne_nil (decimal_ne_nil n.toNat)
  have hc : c.isDigit = true := hdigits c (by rw [heq]; exact List.mem_cons_self)
  have hskip : (decimal n.toNat).dropWhile isspace = decimal n.toNat := by
    rw [heq, List.dropWhile_cons_of_neg]
    rw [isspace_of_isDigit hc]
    decide
  have hfits : ¬ 18446744073709551616 ≤ n.toNat := Nat.not_le.mpr n.toNat_lt
  rw [strtoul, hskip, heq, numberSign_of_isDigit hc, ← heq]
  simp only [htake, hvalue, if_neg hfits, if_neg (decimal_ne_nil n.toNat), Bool.false_eq_true,
    if_false, UInt64.ofNat_toNat]

end digits

end CText
