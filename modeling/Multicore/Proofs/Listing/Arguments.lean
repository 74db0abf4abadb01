import Multicore.Instruction.Text
import Multicore.Proofs.Text.Digits

/-!
# The arguments of an instruction

What stands behind a mnemonic is a register, a number or a memory operand (`Argument`), and the
text says which: the name of a register starts with a letter, a number with a numeral or its sign,
a memory operand with a bracket (`Argument.text_inj`). No argument has a comma, so a list of them is
known from its text too (`Argument.listText_inj`).
-/

namespace Multicore

open Text

namespace Text

/-- A text is cut at the first character that does not satisfy a predicate in one way only. -/
theorem append_inj_of_span {p : Char → Bool} {u v s t : List Char} (hu : ∀ c ∈ u, p c = true)
    (hv : ∀ c ∈ v, p c = true) (hs : ∀ c ∈ s.head?, p c = false) (ht : ∀ c ∈ t.head?, p c = false)
    (h : u ++ s = v ++ t) : u = v ∧ s = t := by
  have hspan {u s : List Char} (hu : ∀ c ∈ u, p c = true) (hs : ∀ c ∈ s.head?, p c = false) :
      (u ++ s).takeWhile p = u := by
    rw [List.takeWhile_append_of_pos hu]
    cases s with
    | nil => exact List.append_nil u
    | cons c s => rw [List.takeWhile_cons_of_neg (by simp [hs c rfl]), List.append_nil]
  have huv : u = v := by rw [← hspan hu hs, h, hspan hv ht]
  subst huv
  exact ⟨rfl, List.append_cancel_left h⟩

end Text

/-! ## Registers -/

namespace Register

/-- The name of a general register is its decimal number after a letter. -/
theorem toList_name_general (n : UInt8) :
    (Register.general n).name.toList = 'r' :: Nat.toDigits 10 n.toNat := by
  simp [name]

/-- The name of a register has letters and digits only. -/
theorem isAlphanum_of_mem_name (r : Register) : ∀ c ∈ r.name.toList, c.isAlphanum = true := by
  cases r with
  | general n =>
    rw [toList_name_general, List.forall_mem_cons]
    exact ⟨by decide, isAlphanum_of_mem_toDigits (by decide) (by decide) n.toNat⟩
  | _ => exact List.all_eq_true.1 (by decide)

/-- The register with a name. -/
def ofName : List Char → Register
  | 'r' :: digits => .general (.ofNat (valueOfDigits 10 digits))
  | ['f', 'p'] => .fp
  | ['s', 'p'] => .sp
  | ['d', 's'] => .ds
  | ['c', 's'] => .cs
  | ['i', 'p'] => .ip
  | 'f' :: _ => .flags
  | _ => .cnt

/-- A register is read back from its name. -/
theorem ofName_name (r : Register) : ofName r.name.toList = r := by
  cases r with
  | general n =>
    rw [toList_name_general, ofName, valueOfDigits_toDigits (by decide) (by decide),
      UInt8.ofNat_toNat]
  | _ => rfl

/-- No two registers have the same name. -/
theorem name_inj {r r' : Register} : r.name = r'.name ↔ r = r' := by
  refine ⟨fun h => ?_, congrArg _⟩
  rw [← ofName_name r, h, ofName_name]

end Register

/-! ## Memory operands -/

/-- The text behind the base of a memory operand. -/
def offsetText (o : Int) : List Char :=
  if o = 0 then [']']
  else ' ' :: (if o < 0 then '-' else '+') :: ' ' :: ((hex o.natAbs).toList ++ [']'])

/-- The text of a memory operand is a register and an offset in brackets. -/
theorem toList_memoryOperandText (base : Register) (offset : Int16) :
    (memoryOperandText base offset).toList =
      '[' :: (base.name.toList ++ offsetText offset.toInt) := by
  simp only [memoryOperandText, offsetText]
  split
  · simp
  · split <;> simp

/-- No two offsets have the same text. -/
theorem offsetText_inj {o o' : Int} : offsetText o = offsetText o' ↔ o = o' := by
  refine ⟨fun h => ?_, congrArg _⟩
  unfold offsetText at h
  by_cases ho : o = 0 <;> by_cases ho' : o' = 0
  · rw [ho, ho']
  · rw [if_pos ho, if_neg ho'] at h
    exact absurd (List.head_eq_of_cons_eq h) (by decide)
  · rw [if_neg ho, if_pos ho'] at h
    exact absurd (List.head_eq_of_cons_eq h) (by decide)
  · rw [if_neg ho, if_neg ho'] at h
    simp only [List.cons.injEq, List.append_cancel_right_eq, String.toList_inj, hex_inj] at h
    obtain ⟨-, hsign, -, hmagnitude⟩ := h
    split at hsign <;> split at hsign
    · omega
    · exact absurd hsign (by decide)
    · exact absurd hsign (by decide)
    · omega

/-- The text of an offset does not go on from the name of the base. -/
theorem head_offsetText (o : Int) : ∀ c ∈ (offsetText o).head?, c.isAlphanum = false := by
  unfold offsetText
  split <;> simp

/-- No two memory operands have the same text. -/
theorem memoryOperandText_inj {base base' : Register} {offset offset' : Int16} :
    memoryOperandText base offset = memoryOperandText base' offset' ↔
      base = base' ∧ offset = offset' := by
  refine ⟨fun h => ?_, fun ⟨hbase, hoffset⟩ => hbase ▸ hoffset ▸ rfl⟩
  rw [← String.toList_inj, toList_memoryOperandText, toList_memoryOperandText,
    List.cons_inj_right] at h
  obtain ⟨hbase, hoffset⟩ := append_inj_of_span base.isAlphanum_of_mem_name
    base'.isAlphanum_of_mem_name (head_offsetText _) (head_offsetText _) h
  rw [String.toList_inj, Register.name_inj] at hbase
  rw [offsetText_inj, Int16.toInt_inj] at hoffset
  exact ⟨hbase, hoffset⟩

/-! ## Arguments -/

/-- What stands behind a mnemonic. -/
inductive Argument where
  | register (r : Register)
  | immediate (v : Int)
  | memory (base : Register) (offset : Int16)
  deriving DecidableEq

namespace Argument

/-- The text of an argument. -/
def text : Argument → String
  | .register r => r.name
  | .immediate v => signedHex v
  | .memory base offset => memoryOperandText base offset

/-- The three kinds of arguments. -/
inductive Kind where
  | register | immediate | memory

/-- The kind of an argument. -/
def kind : Argument → Kind
  | .register _ => .register
  | .immediate _ => .immediate
  | .memory .. => .memory

/-- The kind that the first character of a text tells. -/
def kindOfText : List Char → Kind
  | '[' :: _ => .memory
  | '-' :: _ | '0' :: _ => .immediate
  | _ => .register

/-- The first letters of an argument tell its kind. -/
theorem kindOfText_text (x : Argument) : kindOfText x.text.toList = x.kind := by
  cases x with
  | register r =>
    cases r with
    | general n => rw [text, Register.toList_name_general, kindOfText, kind] <;> simp
    | _ => rfl
  | immediate v =>
    by_cases h : v < 0
    · rw [text, toList_signedHex_of_neg h, kindOfText, kind]
    · rw [text, toList_signedHex_of_nonneg h, kindOfText, kind]
  | memory base offset => rw [text, toList_memoryOperandText, kindOfText, kind]

/-- The text of an argument tells the argument. -/
theorem text_inj {x y : Argument} : x.text = y.text ↔ x = y := by
  refine ⟨fun h => ?_, congrArg _⟩
  have hkind : x.kind = y.kind := by rw [← kindOfText_text, h, kindOfText_text]
  cases x with
  | register r =>
    cases y with
    | register r' => rw [Register.name_inj.1 h]
    | _ => cases hkind
  | immediate v =>
    cases y with
    | immediate w => rw [signedHex_inj.1 h]
    | _ => cases hkind
  | memory base offset =>
    cases y with
    | memory base' offset' =>
      obtain ⟨rfl, rfl⟩ := memoryOperandText_inj.1 h
      rfl
    | _ => cases hkind

/-- No argument has a comma. -/
theorem ne_comma_of_mem_text (x : Argument) : ∀ c ∈ x.text.toList, (c != ',') = true := by
  have hplain {s : List Char} (hs : ∀ c ∈ s, c.isAlphanum = true) : ∀ c ∈ s, (c != ',') = true := by
    intro c hc
    rw [bne_iff_ne]
    rintro rfl
    cases hs _ hc
  have hhex (n : Nat) := hplain (isAlphanum_of_mem_hex n)
  cases x with
  | register r => exact hplain r.isAlphanum_of_mem_name
  | immediate v =>
    rw [text, signedHex]
    split
    · rw [String.toList_append]
      exact List.forall_mem_append.2 ⟨List.all_eq_true.1 (by decide), hhex _⟩
    · exact hhex _
  | memory base offset =>
    rw [text, toList_memoryOperandText, List.forall_mem_cons, List.forall_mem_append, offsetText]
    refine ⟨by decide, hplain base.isAlphanum_of_mem_name, ?_⟩
    split
    · exact List.all_eq_true.1 (by decide)
    · simp only [List.forall_mem_cons, List.forall_mem_append]
      refine ⟨by decide, ?_, by decide, hhex _, by decide, List.forall_mem_nil _⟩
      split <;> decide

/-- The text of the arguments behind the first. -/
def restText : List Argument → List Char
  | [] => []
  | x :: xs => ',' :: ' ' :: (x.text.toList ++ restText xs)

/-- The text of all arguments, with the blank in front of them. -/
def listText : List Argument → List Char
  | [] => []
  | x :: xs => ' ' :: (x.text.toList ++ restText xs)

/-- The text of the further arguments is empty or starts with a comma. -/
theorem head_restText (xs : List Argument) : ∀ c ∈ (restText xs).head?, (c != ',') = false := by
  cases xs <;> simp [restText]

/-- Further arguments are known from their text. -/
theorem restText_inj {xs ys : List Argument} : restText xs = restText ys ↔ xs = ys := by
  refine ⟨fun h => ?_, congrArg _⟩
  induction xs generalizing ys with
  | nil =>
    cases ys with
    | nil => rfl
    | cons y ys => cases h
  | cons x xs ih =>
    cases ys with
    | nil => cases h
    | cons y ys =>
      simp only [restText, List.cons_inj_right] at h
      obtain ⟨hx, hxs⟩ := append_inj_of_span x.ne_comma_of_mem_text y.ne_comma_of_mem_text
        (head_restText xs) (head_restText ys) h
      rw [text_inj.1 (String.toList_inj.1 hx), ih hxs]

/-- The text of a list of arguments tells the arguments. -/
theorem listText_inj {xs ys : List Argument} : listText xs = listText ys ↔ xs = ys := by
  refine ⟨fun h => ?_, congrArg _⟩
  cases xs with
  | nil =>
    cases ys with
    | nil => rfl
    | cons y ys => cases h
  | cons x xs =>
    cases ys with
    | nil => cases h
    | cons y ys => exact restText_inj.1 (congrArg (',' :: ·) h)

/-- The text of a list of arguments is empty or starts with a blank. -/
theorem head_listText (xs : List Argument) : ∀ c ∈ (listText xs).head?, (c != ' ') = false := by
  cases xs <;> simp [listText]

/-- Arguments joined by commas are the first one and the text of the others. -/
theorem toList_intercalate (x : Argument) (xs : List Argument) :
    (", ".intercalate ((x :: xs).map text)).toList = x.text.toList ++ restText xs := by
  induction xs generalizing x with
  | nil => simp [restText]
  | cons y ys ih =>
    rw [List.map_cons, List.map_cons, String.intercalate_cons_cons, String.toList_append,
      String.toList_append, ← List.map_cons, ih]
    simp [restText]

end Argument

end Multicore
