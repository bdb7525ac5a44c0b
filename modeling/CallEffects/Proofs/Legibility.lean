import CallEffects.Location.Reader

/-!
# Printed operands read back

A number printed in hexadecimal is read back as itself, and so are the locations and values that are
printed with nothing but numbers: constants, globals, stack slots and the flags. Blanks around the
text do not matter. A register is printed by number and read by name, so it has no such text; nor
has the least stack offset, the magnitude of which is no 64-bit signed number.
-/

namespace CallEffects

namespace Text

/-! ## Digits -/

theorem digitValue?_digitChar {d : Nat} (h : d < 16) :
    digitValue? 16 (Nat.digitChar d) = some d := by
  have hall : ∀ d < 16, digitValue? 16 (Nat.digitChar d) = some d := by decide
  exact hall d h

theorem readDigits_append (base bound value : Nat) (cs ds : List Char) :
    readDigits base bound value (cs ++ ds) =
      readDigits base bound value cs >>= fun value => readDigits base bound value ds := by
  induction cs generalizing value with
  | nil => rfl
  | cons c cs ih =>
    simp only [List.cons_append, readDigits]
    cases digitValue? base c with
    | none => rfl
    | some d =>
      dsimp only
      split
      · exact ih (value * base + d)
      · rfl

theorem readDigits_hexDigits {n bound : Nat} (h : n < bound) :
    readDigits 16 bound 0 (hexDigits n) = .ok n := by
  induction n using Nat.strongRecOn with
  | ind n ih =>
    have hone : ∀ value d, d < 16 → value * 16 + d < bound →
        readDigits 16 bound value [Nat.digitChar d] = .ok (value * 16 + d) := by
      intro value d hd hlt
      simp only [readDigits, digitValue?_digitChar hd, if_pos hlt]
    rw [hexDigits, Nat.toDigits_eq_if (by omega)]
    split
    · next hn =>
      have hdigit := hone 0 n hn (by omega)
      rwa [Nat.zero_mul, Nat.zero_add] at hdigit
    · next hn =>
      have hrest := ih (n / 16) (by omega) (by omega)
      have hlast := hone (n / 16) (n % 16) (by omega) (by omega)
      have hsum : n / 16 * 16 + n % 16 = n := by omega
      rw [hexDigits] at hrest
      rw [readDigits_append, hrest]
      rw [hsum] at hlast
      exact hlast

theorem mem_hexDigits {n : Nat} {c : Char} (h : c ∈ hexDigits n) :
    ∃ d, d < 16 ∧ c = Nat.digitChar d := by
  induction n using Nat.strongRecOn with
  | ind n ih =>
    rw [hexDigits, Nat.toDigits_eq_if (by omega)] at h
    split at h
    · next hn => exact ⟨n, hn, List.mem_singleton.mp h⟩
    · next hn =>
      rcases List.mem_append.mp h with h | h
      · exact ih (n / 16) (by omega) h
      · exact ⟨n % 16, by omega, List.mem_singleton.mp h⟩

theorem not_mem_hexDigits {n : Nat} {c : Char} (h : ∀ d < 16, c ≠ Nat.digitChar d) :
    c ∉ hexDigits n := by
  intro hc
  obtain ⟨d, hd, rfl⟩ := mem_hexDigits hc
  exact h d hd rfl

theorem readUnsigned_hexDigits {n bound : Nat} (h : n < bound) :
    readUnsigned 16 bound (hexDigits n) = .ok n := by
  have hread := readDigits_hexDigits h
  have hsign : '+' ∉ hexDigits n := not_mem_hexDigits (by decide)
  have hsome : hexDigits n ≠ [] := Nat.toDigits_ne_nil
  generalize hexDigits n = digits at hread hsign hsome
  unfold readUnsigned
  split
  · exact absurd rfl hsome
  · exact absurd List.mem_cons_self hsign
  · exact absurd List.mem_cons_self hsign
  · exact hread

theorem toList_hex (n : Nat) : (hex n).toList = '0' :: 'x' :: hexDigits n := by
  simp [hex]

theorem readNumber_hex {n : Nat} (h : n < UInt64.size) :
    readNumber (hex n).toList = .ok (UInt64.ofNat n) := by
  rw [toList_hex, readNumber, readUnsigned_hexDigits h]
  rfl

/-! ## Blanks around a text -/

/-- The text has no blank at either end. -/
structure Tight (cs : List Char) : Prop where
  ne_nil : cs ≠ []
  head : ∀ c ∈ cs.head?, isBlank c = false
  last : ∀ c ∈ cs.getLast?, isBlank c = false

theorem dropWhile_blanks {before cs : List Char} (hb : ∀ c ∈ before, isBlank c)
    (h : ∀ c ∈ cs.head?, isBlank c = false) : (before ++ cs).dropWhile isBlank = cs := by
  induction before with
  | nil =>
    cases cs with
    | nil => rfl
    | cons c cs => exact trimStart_eq_self (h c rfl)
  | cons b before ih =>
    rw [List.cons_append, List.dropWhile_cons_of_pos (hb b List.mem_cons_self)]
    exact ih fun c hc => hb c (List.mem_cons_of_mem b hc)

namespace Tight

variable {before cs after : List Char}

theorem trim_around (h : Tight cs) (hb : ∀ c ∈ before, isBlank c) (ha : ∀ c ∈ after, isBlank c) :
    trim (before ++ cs ++ after) = cs := by
  have hstart : trimStart (before ++ cs ++ after) = cs ++ after := by
    rw [trimStart, List.append_assoc]
    apply dropWhile_blanks hb
    obtain ⟨c, cs, rfl⟩ := List.exists_cons_of_ne_nil h.ne_nil
    exact h.head
  have hend : (after.reverse ++ cs.reverse).dropWhile isBlank = cs.reverse := by
    apply dropWhile_blanks
    · exact fun c hc => ha c (List.mem_reverse.mp hc)
    · rw [List.head?_reverse]
      exact h.last
  rw [trim, hstart, trimEnd, List.reverse_append, hend, List.reverse_reverse]

theorem trim_eq (h : Tight cs) : trim cs = cs := by
  have hnone : ∀ c ∈ ([] : List Char), isBlank c := by simp
  have htrim := h.trim_around hnone hnone
  rwa [List.nil_append, List.append_nil] at htrim

theorem cons {c : Char} (hc : isBlank c = false) (h : Tight cs) : Tight (c :: cs) := by
  refine ⟨by simp, by simpa using hc, ?_⟩
  rw [List.getLast?_cons_of_ne_nil h.ne_nil]
  exact h.last

end Tight

theorem tight_hexDigits (n : Nat) : Tight (hexDigits n) := by
  have hblank : ∀ c ∈ hexDigits n, isBlank c = false := by
    intro c hc
    obtain ⟨d, hd, rfl⟩ := mem_hexDigits hc
    have hall : ∀ d < 16, isBlank (Nat.digitChar d) = false := by decide
    exact hall d hd
  exact ⟨Nat.toDigits_ne_nil, fun c hc => hblank c (List.mem_of_mem_head? hc),
    fun c hc => hblank c (List.mem_of_getLast? hc)⟩

theorem tight_hex (n : Nat) : Tight (hex n).toList := by
  rw [toList_hex]
  exact ((tight_hexDigits n).cons (by decide)).cons (by decide)

theorem readNumber_of_head {c : Char} (cs : List Char) (h0 : c ≠ '0') (hplus : c ≠ '+')
    (hdigit : digitValue? 10 c = none) : readNumber (c :: cs) = .error .invalidDigit := by
  have hread : readUnsigned 10 UInt64.size (c :: cs) = .error .invalidDigit := by
    unfold readUnsigned
    split <;> simp_all [readDigits]
  unfold readNumber
  split
  · simp_all
  · simp_all
  · rw [hread]
    rfl

end Text

/-! ## Operands -/

variable {arch : Architecture} {before after : List Char}

theorem readAddress_around {cs : List Char} (h : Text.Tight cs) (hb : ∀ c ∈ before, Text.isBlank c)
    (ha : ∀ c ∈ after, Text.isBlank c) :
    readAddress (before ++ cs ++ after) = (Text.readNumber cs).mapError (.number cs) := by
  rw [readAddress, h.trim_around hb ha]

theorem readAddress_hex {n : Nat} (h : n < UInt64.size) :
    readAddress (Text.hex n).toList = .ok (UInt64.ofNat n) := by
  rw [readAddress, (Text.tight_hex n).trim_eq, Text.readNumber_hex h]
  rfl

namespace Location

theorem lowercase_ne_flags {c : Char} (cs : List Char) (h : Text.lowerChar c ≠ 'f') :
    Text.lowercase (String.ofList (c :: cs)) ≠ "flags" := by
  intro heq
  have hlist := congrArg String.toList heq
  simp only [Text.lowercase, String.toList_ofList, List.map_cons] at hlist
  exact h (List.cons.inj hlist).1

theorem bracketed?_brackets (inner : List Char) :
    bracketed? ('[' :: (inner ++ [']'])) = some inner := by
  simp [bracketed?]

theorem tight_brackets (inner : List Char) : Text.Tight ('[' :: (inner ++ [']'])) := by
  refine ⟨by simp, fun c hc => ?_, fun c hc => ?_⟩
  · obtain rfl := Option.some.inj hc
    decide
  · rw [← List.cons_append, List.getLast?_concat] at hc
    obtain rfl := Option.some.inj hc
    decide

theorem read_around {cs : List Char} (h : Text.Tight cs) (hb : ∀ c ∈ before, Text.isBlank c)
    (ha : ∀ c ∈ after, Text.isBlank c) :
    Location.read arch (before ++ cs ++ after) = Location.read arch cs := by
  rw [Location.read, Location.read, h.trim_around hb ha, h.trim_eq]

theorem read_global {n : Nat} (h : n < UInt64.size) :
    Location.read arch ('[' :: ((Text.hex n).toList ++ [']'])) = .ok (.memory (.ofNat n)) := by
  have hflags := lowercase_ne_flags ((Text.hex n).toList ++ [']']) (c := '[') (by decide)
  simp only [Location.read, (tight_brackets _).trim_eq, if_neg hflags, bracketed?_brackets,
    (Text.tight_hex n).trim_eq]
  have hread := readAddress_hex h
  rw [Text.toList_hex] at hread ⊢
  change memory <$> readAddress ('0' :: 'x' :: Text.hexDigits n) = _
  rw [hread]
  rfl

theorem read_slot {sign : Char} {n : Nat} (h : n < UInt64.size) (hsign : sign = '+' ∨ sign = '-') :
    Location.read arch ('[' :: ('s' :: 'p' :: sign :: (Text.hex n).toList ++ [']'])) =
      .ok (.stack (if sign = '-' then -Int64.ofNat n else Int64.ofNat n)) := by
  have hblank : Text.isBlank sign = false := by
    rcases hsign with rfl | rfl <;> decide
  have hrest := (Text.tight_hex n).cons hblank
  have hinner := (hrest.cons (c := 'p') (by decide)).cons (c := 's') (by decide)
  have hflags := lowercase_ne_flags ('s' :: 'p' :: sign :: (Text.hex n).toList ++ [']']) (c := '[')
    (by decide)
  simp only [Location.read, (tight_brackets _).trim_eq, if_neg hflags, bracketed?_brackets,
    hinner.trim_eq, hrest.trim_eq]
  rcases hsign with rfl | rfl <;> simp only [readAddress_hex h] <;> rfl

/-- A location that is printed without the number of a register, and whose offset, if it has one, has
a magnitude. -/
def Legible : Location → Prop
  | .register _ => False
  | .stack offset => Int64.minValue < offset
  | .memory _ | .flags => True

theorem toList_render_memory (address : Address) :
    (memory address).render.toList = '[' :: ((Text.hex address.toNat).toList ++ [']']) := by
  simp [render]

theorem toList_render_stack (offset : Int64) :
    (stack offset).render.toList = '[' :: ('s' :: 'p' :: (if offset < 0 then '-' else '+') ::
      (Text.hex offset.toInt.natAbs).toList ++ [']']) := by
  by_cases h : offset < 0 <;> simp [render, h]

theorem ofNat_natAbs (offset : Int64) :
    (if offset < 0 then -Int64.ofNat offset.toInt.natAbs else Int64.ofNat offset.toInt.natAbs) =
      offset := by
  have hlow := offset.le_toInt
  have hhigh := offset.toInt_lt
  have hsign : offset < 0 ↔ offset.toInt < 0 := Int64.lt_iff_toInt_lt
  apply Int64.toInt_inj.mp
  by_cases h : offset < 0
  · have hneg : offset.toInt < 0 := hsign.mp h
    rw [if_pos h, Int64.toInt_neg_ofNat_of_le (by omega)]
    omega
  · have hpos : ¬offset.toInt < 0 := mt hsign.mpr h
    rw [if_neg h, Int64.toInt_ofNat_of_lt (by omega)]
    omega

theorem read_render {l : Location} (h : l.Legible) : Location.read arch l.render.toList = .ok l := by
  cases l with
  | register r => exact h.elim
  | flags => rfl
  | memory address =>
    rw [toList_render_memory, read_global address.toNat_lt_size, UInt64.ofNat_toNat]
  | stack offset =>
    have hlow := offset.le_toInt
    have hhigh := offset.toInt_lt
    have hsize : offset.toInt.natAbs < UInt64.size := by
      rw [UInt64.size]
      omega
    have hsign : (if offset < 0 then '-' else '+') = '-' ↔ offset < 0 := by
      split <;> simp [*]
    rw [toList_render_stack, read_slot hsize (by split <;> simp)]
    simp only [hsign, ofNat_natAbs]

theorem render_cases {l : Location} (h : l.Legible) :
    l = .flags ∨ ∃ inner, l.render.toList = '[' :: (inner ++ [']']) := by
  cases l with
  | register r => exact h.elim
  | flags => exact .inl rfl
  | memory address => exact .inr ⟨_, toList_render_memory address⟩
  | stack offset => exact .inr ⟨_, toList_render_stack offset⟩

theorem tight_render {l : Location} (h : l.Legible) : Text.Tight l.render.toList := by
  rcases render_cases h with rfl | ⟨inner, hinner⟩
  · refine ⟨by decide, fun c hc => ?_, fun c hc => ?_⟩
    · obtain rfl : 'f' = c := Option.some.inj hc
      decide
    · obtain rfl : 's' = c := Option.some.inj hc
      decide
  · rw [hinner]
    exact tight_brackets inner

theorem readNumber_render {l : Location} (h : l.Legible) :
    Text.readNumber l.render.toList = .error .invalidDigit := by
  rcases render_cases h with rfl | ⟨inner, hinner⟩
  · rfl
  · rw [hinner]
    exact Text.readNumber_of_head _ (by decide) (by decide) (by decide)

end Location

/-! ## Numbers and names -/

namespace Register

theorem ofName?_of_zero (arch : Architecture) (cs : List Char) :
    ofName? arch (String.ofList ('0' :: cs)) = none := by
  have hname : ∀ name : String, name.toList.head? ≠ some '0' →
      (name == Text.lowercase (String.ofList ('0' :: cs))) = false := by
    intro name hne
    rw [beq_eq_false_iff_ne]
    rintro rfl
    simp [Text.lowercase, Text.lowerChar] at hne
  have hx86 : ∀ n ∈ x86Numbers,
      (wideName n).toList.head? ≠ some '0' ∧ (narrowName n).toList.head? ≠ some '0' := by decide
  have harm : ∀ n ∈ List.range arm64Names.length, (arm64Name n).toList.head? ≠ some '0' := by decide
  have hx86' : x86Numbers.find? (fun n =>
      wideName n == Text.lowercase (String.ofList ('0' :: cs)) ||
        narrowName n == Text.lowercase (String.ofList ('0' :: cs))) = none := by
    refine List.find?_eq_none.mpr fun n hn => ?_
    rw [hname _ (hx86 n hn).1, hname _ (hx86 n hn).2]
    decide
  have harm' : (List.range arm64Names.length).find? (fun n =>
      arm64Name n == Text.lowercase (String.ofList ('0' :: cs))) = none := by
    refine List.find?_eq_none.mpr fun n hn => ?_
    rw [hname _ (harm n hn)]
    decide
  cases arch with
  | x86 | x86_64 => simp only [ofName?, hx86', Option.map_none]
  | arm64 => simp only [ofName?, harm', Option.map_none]
  | unknown machine => rfl

end Register

theorem Location.read_hex (arch : Architecture) (n : Nat) :
    Location.read arch (Text.hex n).toList = .error (.register arch (Text.hex n).toList) := by
  have htrim := (Text.tight_hex n).trim_eq
  rw [Text.toList_hex] at htrim ⊢
  have hflags := lowercase_ne_flags ('x' :: Text.hexDigits n) (c := '0') (by decide)
  have hbrackets : bracketed? ('0' :: 'x' :: Text.hexDigits n) = none := rfl
  simp only [Location.read, htrim, if_neg hflags, hbrackets, Register.ofName?_of_zero]

/-- A value that can be printed without the number of a register. -/
def Value.Legible : Value → Prop
  | .constant _ => True
  | .location l => l.Legible

/-- Whatever blanks are put around it, a printed location is read back as that location and a printed
value as that value. The text of a constant is that of no location, and the text of a location that
of no number. -/
theorem printed_operands_read_back (arch : Architecture) {before after : List Char}
    (hb : ∀ c ∈ before, Text.isBlank c) (ha : ∀ c ∈ after, Text.isBlank c) :
    (∀ l : Location, l.Legible →
      Location.read arch (before ++ l.render.toList ++ after) = .ok l ∧
        ∀ n, readAddress (before ++ l.render.toList ++ after) ≠ .ok n) ∧
    (∀ v : Value, v.Legible → Value.read arch (before ++ v.render.toList ++ after) = .ok v) ∧
    ∀ c l, Location.read arch (before ++ (Value.constant c).render.toList ++ after) ≠ .ok l := by
  have haddress : ∀ l : Location, l.Legible →
      readAddress (before ++ l.render.toList ++ after) =
        .error (.number l.render.toList .invalidDigit) := by
    intro l hl
    rw [readAddress_around (Location.tight_render hl) hb ha, Location.readNumber_render hl]
    rfl
  have hlocation : ∀ l : Location, l.Legible →
      Location.read arch (before ++ l.render.toList ++ after) = .ok l := by
    intro l hl
    rw [Location.read_around (Location.tight_render hl) hb ha, Location.read_render hl]
  refine ⟨fun l hl => ⟨hlocation l hl, fun n hn => ?_⟩, fun v hv => ?_, fun c l hl => ?_⟩
  · rw [haddress l hl] at hn
    cases hn
  · cases v with
    | constant c =>
      have hread : readAddress (before ++ (Text.hex c.toNat).toList ++ after) = .ok c := by
        rw [readAddress_around (Text.tight_hex _) hb ha, Text.readNumber_hex c.toNat_lt_size,
          UInt64.ofNat_toNat]
        rfl
      rw [Value.render, Value.read, hread]
    | location l =>
      rw [Value.render, Value.read, haddress l hv, hlocation l hv]
      rfl
  · rw [Value.render, Location.read_around (Text.tight_hex _) hb ha, Location.read_hex] at hl
    cases hl

/-- The least slot that has a text, and the greatest number, between wide blanks. -/
theorem padded_operands_read_back :
    (∀ c ∈ [Char.ofNat 0x3000, '\t'], Text.isBlank c) ∧
    (Location.stack (-0x7fffffffffffffff)).Legible ∧
    Location.read .arm64 ([Char.ofNat 0x3000, '\t'] ++ "[sp-0x7fffffffffffffff]".toList ++ ['\n']) =
      .ok (.stack (-0x7fffffffffffffff)) ∧
    Value.read .x86 ([Char.ofNat 0x3000, '\t'] ++ "0xffffffffffffffff".toList ++ ['\n']) =
      .ok (.constant 0xffffffffffffffff) := by
  have hb : ∀ c ∈ [Char.ofNat 0x3000, '\t'], Text.isBlank c := by
    rw [← List.all_eq_true]
    decide
  have hlegible : (Location.stack (-0x7fffffffffffffff)).Legible := by
    change Int64.minValue < -0x7fffffffffffffff
    decide
  have hslotText : (Location.stack (-0x7fffffffffffffff)).render = "[sp-0x7fffffffffffffff]" := by
    decide +kernel
  have hvalueText : (Value.constant 0xffffffffffffffff).render = "0xffffffffffffffff" := by
    decide +kernel
  have ha : ∀ c ∈ ['\n'], Text.isBlank c := by
    rw [← List.all_eq_true]
    decide
  obtain ⟨hslot, -, -⟩ := printed_operands_read_back .arm64 hb ha
  obtain ⟨-, hvalue, -⟩ := printed_operands_read_back .x86 hb ha
  refine ⟨hb, hlegible, ?_, ?_⟩
  · rw [← hslotText]
    exact (hslot _ hlegible).1
  · rw [← hvalueText]
    exact hvalue _ trivial

end CallEffects
