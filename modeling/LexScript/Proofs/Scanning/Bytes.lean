import LexScript.Token.Scan
import Mathlib.Data.String.Basic

/-!
# The bytes of a text

A character of the ASCII range is one byte, the one with its number. Any other character has several
bytes; the first of them begins a character and the others continue it, and none is in the ASCII
range. So a test that tells only ASCII characters apart says the same of a character and of each of
its bytes, and the longest run of bytes that it accepts consists of whole characters.

## Main definitions

* `bytesOf`, `encode` : the bytes of a character and of a text.
* `IsAsciiTest` : a test that tells only ASCII characters apart.

## Main statements

* `takeWhile_encode` : the longest run of bytes is the longest run of characters.
* `count_encode` : a text has as many newline bytes as newlines.
-/

namespace LexScript

/-- The bytes of a character, each as the character that has its number. -/
def bytesOf (c : Char) : List Char := (String.utf8EncodeChar c).map Char.ofUInt8

/-- The bytes of a text. -/
def encode (cs : List Char) : List Char := cs.flatMap bytesOf

@[simp] theorem encode_nil : encode [] = [] := rfl

@[simp] theorem encode_cons (c : Char) (cs : List Char) :
    encode (c :: cs) = bytesOf c ++ encode cs := rfl

@[simp] theorem encode_append (cs ds : List Char) : encode (cs ++ ds) = encode cs ++ encode ds :=
  List.flatMap_append

theorem length_encode (cs : List Char) : (encode cs).length = String.utf8Len cs := by
  induction cs with
  | nil => rfl
  | cons c cs ih =>
    rw [encode_cons, List.length_append, ih, bytesOf, List.length_map, String.length_utf8EncodeChar,
      String.utf8Len_cons, Nat.add_comm]

/-- The bytes of a string are those of its characters. -/
theorem map_toByteArray_ofList (cs : List Char) :
    (String.ofList cs).toByteArray.data.toList.map Char.ofUInt8 = encode cs := by
  rw [String.toByteArray_ofList, List.utf8Encode, List.toList_data_toByteArray, List.map_flatMap]
  rfl

/-! ### The bytes of a character -/

theorem le_iff_toNat_le {b c : Char} : b ≤ c ↔ b.toNat ≤ c.toNat := UInt32.le_iff_toNat_le

theorem lt_iff_toNat_lt {b c : Char} : b < c ↔ b.toNat < c.toNat := UInt32.lt_iff_toNat_lt

theorem toNat_ofUInt8_ofNat {n : Nat} (h : n < 256) : (Char.ofUInt8 (.ofNat n)).toNat = n := by
  change (UInt8.ofNat n).toUInt32.toNat = n
  rw [UInt8.toNat_toUInt32, UInt8.toNat_ofNat', Nat.mod_eq_of_lt h]

theorem bytesOf_of_lt {c : Char} (h : c < '\x80') : bytesOf c = [c] := by
  have hc : c.toNat < 128 := lt_iff_toNat_lt.1 h
  have hshort : c.val.toNat ≤ 127 := Nat.le_of_lt_succ hc
  have hbyte : Char.ofUInt8 (.ofNat c.val.toNat) = c :=
    Char.toNat_inj.1 (toNat_ofUInt8_ofNat (Nat.lt_trans hc (by decide)))
  rw [bytesOf, String.utf8EncodeChar, if_pos hshort, List.map_singleton, hbyte]

theorem continuesCharacter_ofNat (n : Nat) :
    continuesCharacter (Char.ofUInt8 (.ofNat (n % 64 + 128))) = true := by
  have hbyte := toNat_ofUInt8_ofNat (n := n % 64 + 128) (by omega)
  refine decide_eq_true ⟨le_iff_toNat_le.2 ?_, lt_iff_toNat_lt.2 ?_⟩
  · rw [hbyte]
    exact Nat.le_add_left ..
  · rw [hbyte]
    exact Nat.add_lt_add_right (Nat.mod_lt n (by decide)) 128

/-- The bytes of a character outside the ASCII range. -/
theorem exists_bytesOf {c : Char} (h : '\x80' ≤ c) : ∃ b bs, bytesOf c = b :: bs ∧ '\xc0' ≤ b ∧
    ∀ b ∈ bs, continuesCharacter b = true := by
  have hlead {n : Nat} (hn : n < 64) : '\xc0' ≤ Char.ofUInt8 (.ofNat (n + 192)) := by
    rw [le_iff_toNat_le, toNat_ofUInt8_ofNat (by omega)]
    exact Nat.le_add_left ..
  have hlong : ¬c.val.toNat ≤ 127 := Nat.not_le_of_lt (le_iff_toNat_le.1 h)
  rw [bytesOf, String.utf8EncodeChar, if_neg hlong]
  split
  · refine ⟨_, _, rfl, hlead (Nat.lt_trans (Nat.mod_lt _ (by decide)) (by decide)), ?_⟩
    exact List.forall_mem_singleton.2 (continuesCharacter_ofNat _)
  split
  · refine ⟨_, _, rfl, hlead (n := c.val.toNat / 4096 % 16 + 32) (by omega), ?_⟩
    exact List.forall_mem_cons.2 ⟨continuesCharacter_ofNat _,
      List.forall_mem_singleton.2 (continuesCharacter_ofNat _)⟩
  · refine ⟨_, _, rfl, hlead (n := c.val.toNat / 262144 % 8 + 48) (by omega), ?_⟩
    exact List.forall_mem_cons.2 ⟨continuesCharacter_ofNat _,
      List.forall_mem_cons.2 ⟨continuesCharacter_ofNat _,
        List.forall_mem_singleton.2 (continuesCharacter_ofNat _)⟩⟩

/-- The first byte of a character begins one, and the others continue it. -/
theorem exists_lead (c : Char) : ∃ b bs, bytesOf c = b :: bs ∧ continuesCharacter b = false ∧
    ∀ b ∈ bs, continuesCharacter b = true := by
  by_cases hc : c < '\x80'
  · exact ⟨c, [], bytesOf_of_lt hc, decide_eq_false fun h ↦ Char.not_le.2 hc h.1,
      List.forall_mem_nil _⟩
  · obtain ⟨b, bs, hbytes, hlead, hcontinues⟩ := exists_bytesOf (Char.not_lt.1 hc)
    exact ⟨b, bs, hbytes, decide_eq_false fun h ↦ Char.not_le.2 h.2 hlead, hcontinues⟩

/-- Every byte of a character outside the ASCII range is outside it. -/
theorem le_of_mem_bytesOf {b c : Char} (h : '\x80' ≤ c) (hb : b ∈ bytesOf c) : '\x80' ≤ b := by
  obtain ⟨b', bs, hbytes, hlead, hcontinues⟩ := exists_bytesOf h
  rw [hbytes] at hb
  rcases List.mem_cons.1 hb with rfl | hb
  · exact Char.le_trans (by decide) hlead
  · exact (of_decide_eq_true (hcontinues b hb)).1

/-! ### Runs of bytes -/

/-- A test that does not tell characters outside the ASCII range apart. -/
def IsAsciiTest (p : Char → Bool) : Prop := ∀ b c, '\x80' ≤ b → '\x80' ≤ c → p b = p c

theorem isAsciiTest_beq {d : Char} (h : d < '\x80') : IsAsciiTest (· == d) := by
  have hne {b : Char} (hb : '\x80' ≤ b) : (b == d) = false :=
    beq_false_of_ne fun hbd ↦ Char.not_le.2 h (hbd ▸ hb)
  exact fun b c hb hc ↦ (hne hb).trans (hne hc).symm

theorem isAsciiTest_bne {d : Char} (h : d < '\x80') : IsAsciiTest (· != d) :=
  fun b c hb hc ↦ congrArg not (isAsciiTest_beq h b c hb hc)

theorem isAsciiTest_of_eq_false {p : Char → Bool} (h : ∀ c, '\x80' ≤ c → p c = false) :
    IsAsciiTest p := fun b c hb hc ↦ (h b hb).trans (h c hc).symm

theorem isDigit_of_le {c : Char} (h : '\x80' ≤ c) : c.isDigit = false := by
  have hdigit : c.isDigit = (decide ('0' ≤ c) && decide (c ≤ '9')) := rfl
  have hhigh : ¬c ≤ '9' := fun hc ↦ absurd (Char.le_trans h hc) (by decide)
  rw [hdigit, decide_eq_false hhigh, Bool.and_false]

theorem isAsciiTest_isDigit : IsAsciiTest Char.isDigit :=
  isAsciiTest_of_eq_false fun _ ↦ isDigit_of_le

theorem isAlpha_of_le {c : Char} (h : '\x80' ≤ c) : c.isAlpha = false := by
  have halpha : c.isAlpha = (decide ('A' ≤ c ∧ c ≤ 'Z') || decide ('a' ≤ c) && decide (c ≤ 'z')) :=
    rfl
  have hupper : ¬c ≤ 'Z' := fun hc ↦ absurd (Char.le_trans h hc) (by decide)
  have hlower : ¬c ≤ 'z' := fun hc ↦ absurd (Char.le_trans h hc) (by decide)
  rw [halpha, decide_eq_false (hupper ·.2), decide_eq_false hlower, Bool.and_false, Bool.or_false]

theorem ne_underscore_of_le {c : Char} (h : '\x80' ≤ c) : (c == '_') = false :=
  beq_false_of_ne fun hc ↦ absurd (hc ▸ h) (by decide)

theorem startsWord_of_le {c : Char} (h : '\x80' ≤ c) : startsWord c = false := by
  rw [startsWord, isAlpha_of_le h, ne_underscore_of_le h, Bool.or_false]

theorem continuesWord_of_le {c : Char} (h : '\x80' ≤ c) : continuesWord c = false := by
  have halphanum : c.isAlphanum = (c.isAlpha || c.isDigit) := rfl
  rw [continuesWord, halphanum, isAlpha_of_le h, isDigit_of_le h, ne_underscore_of_le h,
    Bool.or_false, Bool.or_false]

variable {p : Char → Bool} {c : Char}

/-- A test says of the bytes of a character what it says of the character. -/
theorem IsAsciiTest.eq_of_mem (hp : IsAsciiTest p) {b : Char} (hb : b ∈ bytesOf c) : p b = p c := by
  by_cases hc : c < '\x80'
  · rw [bytesOf_of_lt hc, List.mem_singleton] at hb
    rw [hb]
  · have hc := Char.not_lt.1 hc
    exact hp b c (le_of_mem_bytesOf hc hb) hc

/-- The longest run of bytes is the longest run of characters. -/
theorem IsAsciiTest.takeWhile_encode (hp : IsAsciiTest p) (cs : List Char) :
    (encode cs).takeWhile p = encode (cs.takeWhile p) := by
  induction cs with
  | nil => rfl
  | cons c cs ih =>
    rw [encode_cons]
    by_cases hc : p c = true
    · rw [List.takeWhile_append_of_pos fun b hb ↦ (hp.eq_of_mem hb).trans hc, ih,
        List.takeWhile_cons_of_pos hc, encode_cons]
    · obtain ⟨b, bs, hbytes, -⟩ := exists_lead c
      have hb : ¬p b = true := by rwa [hp.eq_of_mem (hbytes ▸ List.mem_cons_self)]
      rw [hbytes, List.cons_append, List.takeWhile_cons_of_neg hb, List.takeWhile_cons_of_neg hc,
        encode_nil]

/-- A newline is one byte, and no other character has this byte. -/
theorem count_encode (cs : List Char) : (encode cs).count '\n' = cs.count '\n' := by
  have hone (c : Char) : (bytesOf c).count '\n' = if c == '\n' then 1 else 0 := by
    by_cases hc : c < '\x80'
    · rw [bytesOf_of_lt hc, List.count_singleton]
    · have hc := Char.not_lt.1 hc
      have hmem : '\n' ∉ bytesOf c := fun hb ↦ absurd (le_of_mem_bytesOf hc hb) (by decide)
      have hne : (c == '\n') = false := beq_false_of_ne (by rintro rfl; exact absurd hc (by decide))
      rw [List.count_eq_zero.2 hmem, hne]
      rfl
  induction cs with
  | nil => rfl
  | cons c cs ih => rw [encode_cons, List.count_append, ih, hone, List.count_cons, Nat.add_comm]

/-- Behind the first byte of a character, the bytes that continue one are its other bytes. -/
theorem takeWhile_continuesCharacter {b : Char} {bs : List Char} (h : bytesOf c = b :: bs)
    (cs : List Char) : (bs ++ encode cs).takeWhile continuesCharacter = bs := by
  have hbs : ∀ b' ∈ bs, continuesCharacter b' = true := by
    obtain ⟨b', bs', hbytes, -, hcontinues⟩ := exists_lead c
    obtain ⟨rfl, rfl⟩ := List.cons.inj (hbytes.symm.trans h)
    exact hcontinues
  have hnext : (encode cs).takeWhile continuesCharacter = [] := by
    cases cs with
    | nil => rfl
    | cons d ds =>
      obtain ⟨b', bs', hbytes, hlead, -⟩ := exists_lead d
      rw [encode_cons, hbytes, List.cons_append, List.takeWhile_cons_of_neg (by simp [hlead])]
  rw [List.takeWhile_append_of_pos hbs, hnext, List.append_nil]

end LexScript
