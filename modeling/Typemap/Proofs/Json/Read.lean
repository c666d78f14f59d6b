import Typemap.Json.Read
import Typemap.Proofs.Json.Scan

/-!
# Reading what was written

The tokens of a value are scanned back from its text, and the reader puts the
value together from them again. So a text that is written for a value is read as
this value, and no two values have the same text.
-/

namespace Typemap.Json

/-- Behind its first item a list goes on with a comma or ends with its bracket. -/
theorem exists_sign_tokensOfItems (items : List Json) :
    ∃ t us, tokensOfItems false items = t :: us ∧ t.isSign = true := by
  cases items with
  | nil =>
      rw [tokensOfItems]
      exact ⟨.closeArray, [], rfl, rfl⟩
  | cons item items =>
      rw [tokensOfItems]
      exact ⟨.comma, _, rfl, rfl⟩

theorem exists_sign_tokensOfFields (fields : List (Text × Json)) :
    ∃ t us, tokensOfFields false fields = t :: us ∧ t.isSign = true := by
  cases fields with
  | nil =>
      rw [tokensOfFields]
      exact ⟨.closeObject, [], rfl, rfl⟩
  | cons field fields =>
      rw [tokensOfFields]
      exact ⟨.comma, _, rfl, rfl⟩

/-- Tokens that may stand behind a comma, but not behind the opening bracket. -/
theorem Scans.separated {ts : List Token} (h : Scans ts) (first : Bool) :
    Scans ((if first then [] else [.comma]) ++ ts) := by
  cases first with
  | true => exact h
  | false => exact h.sign rfl

mutual

theorem scans_tokens (j : Json) : Scans j.tokens := by
  cases j with
  | scalar s =>
      rw [tokens]
      exact .scalar s
  | array items =>
      rw [tokens]
      exact (scans_tokensOfItems true items).sign rfl
  | object fields =>
      rw [tokens]
      exact (scans_tokensOfFields true fields).sign rfl

theorem scans_tokensOfItems (first : Bool) (items : List Json) :
    Scans (tokensOfItems first items) := by
  cases items with
  | nil =>
      rw [tokensOfItems]
      exact Scans.nil.sign rfl
  | cons item items =>
      have hrest := scans_tokensOfItems false items
      obtain ⟨t, us, heq, ht⟩ := exists_sign_tokensOfItems items
      rw [tokensOfItems, heq, List.append_assoc]
      exact ((scans_tokens item).append ht (heq ▸ hrest)).separated first

theorem scans_tokensOfFields (first : Bool) (fields : List (Text × Json)) :
    Scans (tokensOfFields first fields) := by
  match fields with
  | [] =>
      rw [tokensOfFields]
      exact Scans.nil.sign rfl
  | (key, value) :: fields =>
      have hrest := scans_tokensOfFields false fields
      obtain ⟨t, us, heq, ht⟩ := exists_sign_tokensOfFields fields
      have hvalue := (scans_tokens value).append ht (heq ▸ hrest)
      have hcolon : Scans (.colon :: (value.tokens ++ t :: us)) := hvalue.sign rfl
      rw [tokensOfFields, heq, List.append_assoc]
      exact ((Scans.scalar (.string key)).append rfl hcolon).separated first

end

namespace Reader

variable (frames : List Frame) (ts : List Token)

/-- Behind an opening bracket a value is read as the first item. -/
theorem run?_opened (j : Json) :
    run? (.opened frames) (j.tokens ++ ts) =
      run? (.value (.array [] :: frames)) (j.tokens ++ ts) := by
  cases j with
  | scalar s => rw [tokens]; rfl
  | array items => rw [tokens]; rfl
  | object fields => rw [tokens]; rfl

theorem run?_openArray :
    run? (.value frames) (.openArray :: ts) = run? (.opened frames) ts := rfl

theorem run?_openObject :
    run? (.value frames) (.openObject :: ts) = run? (.key true [] frames) ts := rfl

theorem run?_item (j : Json) (done : List Json) :
    run? (.after j (.array done :: frames)) (.comma :: ts) =
      run? (.value (.array (done ++ [j]) :: frames)) ts := rfl

theorem run?_field (j : Json) (done : List (Text × Json)) (key : Text) :
    run? (.after j (.object done key :: frames)) (.comma :: ts) =
      run? (.key false (done ++ [(key, j)]) frames) ts := rfl

theorem run?_key (first : Bool) (done : List (Text × Json)) (key : Text) :
    run? (.key first done frames) (.scalar (.string key) :: .colon :: ts) =
      run? (.value (.object done key :: frames)) ts := by
  cases first <;> rfl

mutual

/-- The tokens of a value take the reader behind that value. -/
theorem run?_tokens (j : Json) (frames : List Frame) (ts : List Token) :
    run? (.value frames) (j.tokens ++ ts) = run? (.after j frames) ts := by
  match j with
  | .scalar s =>
      rw [tokens]
      rfl
  | .array [] =>
      rw [tokens, tokensOfItems]
      rfl
  | .array (item :: items) =>
      rw [tokens, tokensOfItems, if_pos rfl, List.nil_append, List.cons_append, List.append_assoc,
        run?_openArray, run?_opened, run?_tokens item, run?_tokensOfItems items, List.nil_append]
  | .object [] =>
      rw [tokens, tokensOfFields]
      rfl
  | .object ((key, value) :: fields) =>
      rw [tokens, tokensOfFields, if_pos rfl, List.nil_append, List.cons_append, List.cons_append,
        List.cons_append, List.cons_append, List.cons_append, List.append_assoc, run?_openObject,
        run?_key, run?_tokens value, run?_tokensOfFields fields, List.nil_append]

/-- Those of the items behind one that has been read complete the array. -/
theorem run?_tokensOfItems (items : List Json) (j : Json) (done : List Json) (frames : List Frame)
    (ts : List Token) :
    run? (.after j (.array done :: frames)) (tokensOfItems false items ++ ts) =
      run? (.after (.array (done ++ j :: items)) frames) ts := by
  match items with
  | [] =>
      rw [tokensOfItems]
      rfl
  | item :: items =>
      rw [tokensOfItems, if_neg Bool.false_ne_true, List.append_assoc, List.append_assoc,
        List.singleton_append, run?_item, run?_tokens item, run?_tokensOfItems items,
        List.append_assoc, List.singleton_append]

theorem run?_tokensOfFields (fields : List (Text × Json)) (j : Json) (key : Text)
    (done : List (Text × Json)) (frames : List Frame) (ts : List Token) :
    run? (.after j (.object done key :: frames)) (tokensOfFields false fields ++ ts) =
      run? (.after (.object (done ++ (key, j) :: fields)) frames) ts := by
  match fields with
  | [] =>
      rw [tokensOfFields]
      rfl
  | (next, value) :: fields =>
      rw [tokensOfFields, if_neg Bool.false_ne_true, List.append_assoc, List.append_assoc,
        List.singleton_append, run?_field, List.cons_append, List.cons_append, run?_key,
        run?_tokens value, run?_tokensOfFields fields, List.append_assoc, List.singleton_append]

end

end Reader

@[simp] theorem ofTokens?_tokens (j : Json) : ofTokens? j.tokens = some j := by
  have hrun := Reader.run?_tokens j [] []
  rw [List.append_nil] at hrun
  rw [ofTokens?, hrun]
  rfl

/-- Every value is read back from its text. -/
@[simp] theorem read?_write (j : Json) : read? j.write = some j := by
  rw [read?, write, String.toList_ofList, (scans_tokens j).scan?_spelling, Option.bind_some,
    ofTokens?_tokens]

theorem write_injective : Function.Injective write := by
  intro j k h
  have hread := congrArg read? h
  simpa using hread

end Typemap.Json
