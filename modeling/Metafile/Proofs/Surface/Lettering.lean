import Metafile.Decimal.Binary
import Metafile.Surface.Call

/-! The font of a surface. Calls set it, but unlike the paint it is neither saved nor
restored. A text is written in the font that the calls before it left. -/

namespace Metafile

namespace Call

/-- The text that a call draws. -/
def text? : Call → Option String
  | drawText text _ => some text
  | _ => none

/-- The words that a call carries: a text, or the family of a font. -/
def words : Call → List String
  | drawText text _ => [text]
  | setFont family _ => [family]
  | _ => []

/-- The call sets a font that has a family. -/
def setsFamily : Call → Bool
  | setFont family _ => !family.isEmpty
  | _ => false

end Call

/-- What texts are written in. -/
structure Lettering where
  family : String
  size : Float

namespace Lettering

/-- What a call makes of a font. A font without a family leaves the family as it is. -/
def take (l : Lettering) : Call → Lettering
  | .setFont family size => ⟨if family.isEmpty then l.family else family, size⟩
  | _ => l

/-- The font behind calls. -/
def after (l : Lettering) (calls : List Call) : Lettering := calls.foldl take l

/-- The texts that calls draw, each with the font in which it is written. -/
def texts (l : Lettering) : List Call → List (String × Lettering)
  | [] => []
  | call :: rest => (call.text?.map (·, l)).toList ++ texts (l.take call) rest

variable (l : Lettering)

/-- The families of the texts that calls draw. -/
def families (calls : List Call) : List String := (l.texts calls).map (·.2.family)

/-- The sizes of the texts that calls draw, as they are written. -/
def sizes (calls : List Call) : List String :=
  (l.texts calls).map fun written => Decimal.text written.2.size

/-- A call leaves the family as it is or names a new one. Nothing else can come from it. -/
theorem family_take (call : Call) :
    (l.take call).family = l.family ∨ (l.take call).family ∈ call.words := by
  cases call with
  | setFont family size =>
      by_cases hEmpty : family.isEmpty
      · exact .inl (if_pos hEmpty)
      · exact .inr (List.mem_singleton.2 (if_neg hEmpty))
  | _ => exact .inl rfl

/-- A text is a word of some call, and so is its family unless it was there before. -/
theorem mem_texts {l : Lettering} {calls : List Call} {written : String × Lettering}
    (hMem : written ∈ l.texts calls) :
    (∃ call ∈ calls, written.1 ∈ call.words) ∧
      (written.2.family = l.family ∨ ∃ call ∈ calls, written.2.family ∈ call.words) := by
  induction calls generalizing l with
  | nil => cases hMem
  | cons call rest ih =>
      rw [texts, List.mem_append] at hMem
      rcases hMem with hFirst | hRest
      · cases call with
        | drawText text point =>
            obtain rfl := List.mem_singleton.1 hFirst
            exact ⟨⟨_, List.mem_cons_self, List.mem_singleton_self _⟩, .inl rfl⟩
        | _ => cases hFirst
      · obtain ⟨⟨other, hOther, hWord⟩, hFamily⟩ := ih hRest
        refine ⟨⟨other, List.mem_cons_of_mem _ hOther, hWord⟩, ?_⟩
        rcases hFamily with hKept | ⟨setter, hSetter, hSet⟩
        · rw [hKept]
          exact (l.family_take call).imp_right fun hSet => ⟨call, List.mem_cons_self, hSet⟩
        · exact .inr ⟨setter, List.mem_cons_of_mem _ hSetter, hSet⟩

/-- The calls that `sets` tells apart are those that decide about a part of the font,
whatever it was before. -/
structure Decides {α : Type} (sets : Call → Bool) (part : Lettering → α) : Prop where
  text?_eq : ∀ call, sets call → call.text? = none
  forgets : ∀ call, sets call → ∀ l l' : Lettering, part (l.take call) = part (l'.take call)
  keeps : ∀ call, sets call = false → ∀ l : Lettering, part (l.take call) = part l

/-- The family of a text is decided by the calls that set a family. -/
theorem decides_family : Decides Call.setsFamily family where
  text?_eq call hSets := by
    cases call with
    | drawText _ _ => cases hSets
    | _ => rfl
  forgets call hSets l l' := by
    cases call with
    | setFont family size =>
        have hFamily : ¬family.isEmpty := by simpa [Call.setsFamily] using hSets
        exact (if_neg hFamily).trans (if_neg hFamily).symm
    | _ => cases hSets
  keeps call hKeeps l := by
    cases call with
    | setFont family size =>
        have hFamily : family.isEmpty := by simpa [Call.setsFamily] using hKeeps
        exact if_pos hFamily
    | _ => rfl

/-- Its size is decided by all calls that set a font, as each of them gives a size. -/
theorem decides_size : Decides Call.isSetFont fun l => Decimal.text l.size where
  text?_eq call hSets := by
    cases call with
    | drawText _ _ => cases hSets
    | _ => rfl
  forgets call hSets l l' := by
    cases call with
    | setFont family size => rfl
    | _ => cases hSets
  keeps call hKeeps l := by
    cases call with
    | setFont family size => cases hKeeps
    | _ => rfl

/-- A text is drawn before any call that `sets` tells apart. -/
def inherits (sets : Call → Bool) (calls : List Call) : Bool :=
  (calls.takeWhile (!sets ·)).any (·.text?.isSome)

/-- A call that sets nothing hands on what it finds, and a text among these calls has it from
before. -/
@[simp]
theorem inherits_cons (sets : Call → Bool) (call : Call) (rest : List Call) :
    inherits sets (call :: rest) = (!sets call && (call.text?.isSome || inherits sets rest)) := by
  cases hSets : sets call <;> simp [inherits, hSets]

/-- Nothing is inherited in two sequences of calls if neither inherits anything. -/
theorem inherits_append {sets : Call → Bool} {first second : List Call}
    (hFirst : inherits sets first = false) (hSecond : inherits sets second = false) :
    inherits sets (first ++ second) = false := by
  induction first with
  | nil => exact hSecond
  | cons call rest ih =>
      rw [inherits_cons, Bool.and_eq_false_imp] at hFirst
      rw [List.cons_append, inherits_cons, Bool.and_eq_false_imp]
      intro hSets
      rw [Bool.or_eq_false_iff]
      exact (Bool.or_eq_false_iff.1 (hFirst hSets)).imp_right ih

theorem inherits_of_silent {sets : Call → Bool} {calls : List Call}
    (hSilent : ∀ call ∈ calls, call.text? = none) : inherits sets calls = false := by
  induction calls with
  | nil => rfl
  | cons call rest ih =>
      obtain ⟨hCall, hRest⟩ := List.forall_mem_cons.1 hSilent
      simp [hCall, ih hRest]

/-- Texts are drawn on any surface in the same order. -/
theorem texts_map_fst (calls : List Call) :
    (l.texts calls).map (·.1) = calls.filterMap Call.text? := by
  induction calls generalizing l with
  | nil => rfl
  | cons call rest ih => cases hText : call.text? <;> simp [texts, hText, ih]

/-- Of two surfaces that receive the same calls, the texts agree in a part of the font if
the surfaces agreed in it before, or if no text inherits it. -/
theorem texts_map_eq_iff {α : Type} {sets : Call → Bool} {part : Lettering → α}
    (hDecides : Decides sets part) (l l' : Lettering) (calls : List Call) :
    (l.texts calls).map (part ·.2) = (l'.texts calls).map (part ·.2) ↔
      part l = part l' ∨ inherits sets calls = false := by
  induction calls generalizing l l' with
  | nil => simp [texts, inherits]
  | cons call rest ih =>
      cases hSets : sets call with
      | true =>
          have hRest := (ih _ _).2 (.inl (hDecides.forgets call hSets l l'))
          simp [texts, hSets, hDecides.text?_eq call hSets, hRest]
      | false =>
          have hRest := ih (l.take call) (l'.take call)
          rw [hDecides.keeps call hSets, hDecides.keeps call hSets] at hRest
          cases hText : call.text? with
          | none => simpa [texts, hSets, hText] using hRest
          | some text =>
              have hPart : part l = part l' →
                  part l = part l' ∨ inherits sets rest = false := .inl
              simpa [texts, hSets, hText, hRest] using hPart

/-- Two states write the same families just if they agree on the family or no text inherits it. -/
theorem families_eq_iff (l l' : Lettering) (calls : List Call) :
    l.families calls = l'.families calls ↔
      l.family = l'.family ∨ inherits Call.setsFamily calls = false :=
  texts_map_eq_iff decides_family l l' calls

/-- And the same sizes just if these are written alike or no text inherits them. -/
theorem sizes_eq_iff (l l' : Lettering) (calls : List Call) :
    l.sizes calls = l'.sizes calls ↔
      Decimal.text l.size = Decimal.text l'.size ∨ inherits Call.isSetFont calls = false :=
  texts_map_eq_iff decides_size l l' calls

end Lettering

end Metafile
