import Mathlib.Data.Rat.Defs
import Mathlib.Tactic.Ring
import Metafile.Proofs.Plus.Effect

/-! The world transform of EMF+ in exact numbers. Matrices that are appended act after the
present transform and all others before it, so records of both kinds compose to one map, in
whatever order the two kinds are mixed. -/

namespace Metafile

namespace Affine

variable {R : Type} [CommRing R]

/-- A product of maps is their composition, the first map acting first. -/
theorem apply_andThen (first second : Affine R) (p : Point R) :
    (first.andThen second).apply p = second.apply (first.apply p) := by
  simp only [apply, andThen, Point.mk.injEq]
  constructor <;> ring

theorem andThen_assoc (first second third : Affine R) :
    (first.andThen second).andThen third = first.andThen (second.andThen third) := by
  simp only [andThen, Affine.mk.injEq]
  and_intros <;> ring

end Affine

namespace Plus

/-- Numbers that transforms are computed in: the number stored at a place of a payload, and
the matrix of the rotation by an angle. -/
structure Numerals (α : Type) where
  numberAt : Bytes → Nat → α
  rotation : α → Affine α

/-- What a record does to the world transform. -/
inductive WorldChange (α : Type) where
  | replace (transform : Affine α)
  | combine (matrix : Affine α) (append : Bool)
deriving DecidableEq

namespace WorldChange

variable {α : Type}

/-- The transform behind a change. -/
def act [Add α] [Mul α] (t : Affine α) : WorldChange α → Affine α
  | replace transform => transform
  | combine matrix append => if append then t.andThen matrix else matrix.andThen t

/-- The matrix that acts before all that is there. -/
def prepended? : WorldChange α → Option (Affine α)
  | combine matrix false => some matrix
  | _ => none

/-- The matrix that acts after all that is there. -/
def appended? : WorldChange α → Option (Affine α)
  | combine matrix true => some matrix
  | _ => none

def isCombine : WorldChange α → Bool
  | combine _ _ => true
  | replace _ => false

section

variable {R : Type} [CommRing R]

/-- An appended matrix and one that is not act on different sides. -/
theorem act_comm (t first second : Affine R) :
    act (act t (combine first true)) (combine second false) =
      act (act t (combine second false)) (combine first true) :=
  (Affine.andThen_assoc second t first).symm

/-- Changes that combine apply the matrices that are not appended in the reverse of their
order, then the transform before them, and then the appended ones in their order. -/
theorem apply_foldl_act {changes : List (WorldChange R)}
    (hCombine : ∀ change ∈ changes, change.isCombine) (t : Affine R) (p : Point R) :
    (changes.foldl act t).apply p =
      (changes.filterMap appended?).foldl (fun q matrix => matrix.apply q)
        (t.apply ((changes.filterMap prepended?).foldr Affine.apply p)) := by
  induction changes generalizing t with
  | nil => rfl
  | cons change rest ih =>
      obtain ⟨hFirst, hRest⟩ := List.forall_mem_cons.1 hCombine
      cases change with
      | replace transform => cases hFirst
      | combine matrix append =>
          rw [List.foldl_cons, ih hRest]
          cases append with
          | true =>
              show List.foldl _ ((t.andThen matrix).apply _) _ = _
              rw [Affine.apply_andThen]
              rfl
          | false =>
              show List.foldl _ ((matrix.andThen t).apply _) _ = _
              rw [Affine.apply_andThen]
              rfl

end

end WorldChange

namespace Numerals

/-- The binary64 numbers of a drawing. -/
def drawn : Numerals Float := ⟨floatAt, .rotation⟩

/-- The rational numbers that are stored, with a matrix for each rotation. The exponents of
infinity and of numbers that are none are read like any others. -/
def exact (rotation : Rat → Affine Rat) : Numerals Rat where
  numberAt p start :=
    let bits := p.u32At start
    let fraction : Nat := bits % 2 ^ 23
    let biased : Nat := bits / 2 ^ 23 % 2 ^ 8
    let mantissa : Nat := if biased = 0 then fraction else 2 ^ 23 + fraction
    let sign : Rat := if bits.testBit 31 then -1 else 1
    sign * mantissa * 2 ^ max biased 1 / 2 ^ 150
  rotation := rotation

section

variable {α : Type} (n : Numerals α)

def matrixAt (p : Bytes) : Affine α :=
  ⟨n.numberAt p 0, n.numberAt p 4, n.numberAt p 8, n.numberAt p 12, n.numberAt p 16,
    n.numberAt p 20⟩

variable [OfNat α 0] [OfNat α 1]

/-- What a record of a kind does to the world transform, if it does anything to it and its
payload holds the numbers for it. -/
def changeOf? (kind : Kind) (f : Flags) (p : Bytes) : Option (WorldChange α) :=
  match kind with
  | .setWorldTransform => if 24 ≤ p.size then some (.replace (n.matrixAt p)) else none
  | .resetWorldTransform => some (.replace .identity)
  | .multiplyWorldTransform =>
    if 24 ≤ p.size then some (.combine (n.matrixAt p) f.append) else none
  | .translateWorldTransform =>
    if 8 ≤ p.size then some (.combine (.shift (n.numberAt p 0) (n.numberAt p 4)) f.append)
    else none
  | .scaleWorldTransform =>
    if 8 ≤ p.size then some (.combine (.scale (n.numberAt p 0) (n.numberAt p 4)) f.append)
    else none
  | .rotateWorldTransform =>
    if 4 ≤ p.size then some (.combine (n.rotation (n.numberAt p 0)) f.append) else none
  | _ => none

def change? (r : Record) : Option (WorldChange α) :=
  (Kind.ofCode? (r.opcode % 0x10000)).bind fun kind => n.changeOf? kind ⟨r.flags⟩ r.payload

/-- The matrices of the records without the flag for appending. -/
def prepended (rs : List Record) : List (Affine α) :=
  (rs.filterMap n.change?).filterMap WorldChange.prepended?

/-- The matrices of the records with the flag for appending. -/
def appended (rs : List Record) : List (Affine α) :=
  (rs.filterMap n.change?).filterMap WorldChange.appended?

variable [Add α] [Mul α]

/-- The world transform behind records. -/
def world (t : Affine α) (rs : List Record) : Affine α :=
  (rs.filterMap n.change?).foldl WorldChange.act t

/-- Records may be cut into two parts anywhere: the second changes the transform that the first
one leaves. -/
theorem world_append (t : Affine α) (first second : List Record) :
    n.world t (first ++ second) = n.world (n.world t first) second := by
  rw [world, List.filterMap_append, List.foldl_append]
  rfl

/-- The first record changes the transform that the others find. -/
theorem world_cons (t : Affine α) (r : Record) (rs : List Record) :
    n.world t (r :: rs) = n.world ((n.change? r).elim t (WorldChange.act t)) rs := by
  rw [world]
  cases hChange : n.change? r with
  | none =>
      rw [List.filterMap_cons_none hChange]
      rfl
  | some change =>
      rw [List.filterMap_cons_some hChange]
      rfl

end

end Numerals

/-- The records of a kind put another transform into the place of the present one. -/
def Kind.replacesWorld : Kind → Bool
  | .setWorldTransform | .resetWorldTransform | .restore => true
  | _ => false

/-- The record puts another transform into the place of the present one. -/
def replacesWorld (r : Record) : Bool :=
  (Kind.ofCode? (r.opcode % 0x10000)).any Kind.replacesWorld

/-- Records that do not replace the transform combine it with another one or leave it. -/
theorem Numerals.isCombine_of_keeps {α : Type} [OfNat α 0] [OfNat α 1] (n : Numerals α)
    {r : Record} (hKeeps : replacesWorld r = false) {change : WorldChange α}
    (hChange : n.change? r = some change) : change.isCombine := by
  obtain ⟨kind, hKind, hChange⟩ := Option.bind_eq_some_iff.1 hChange
  rw [replacesWorld, hKind] at hKeeps
  cases kind with
  | setWorldTransform | resetWorldTransform => cases hKeeps
  | multiplyWorldTransform | translateWorldTransform | scaleWorldTransform
  | rotateWorldTransform =>
      simp only [changeOf?, Option.ite_none_right_eq_some, Option.some.injEq] at hChange
      obtain ⟨-, rfl⟩ := hChange
      rfl
  | _ => cases hChange

/-- A record that only asks for its size does one thing or nothing. -/
theorem actions_ofExcept_need {p : Bytes} {required : Nat} {asked : List Action} :
    (Reading.ofExcept (p.need required >>= fun _ => pure asked)).actions =
      if required ≤ p.size then asked else [] := by
  unfold Bytes.need
  by_cases hShort : p.size < required
  · rw [if_pos hShort, if_neg (by omega)]
    rfl
  · rw [if_neg hShort, if_pos (by omega)]
    rfl

/-- The action that makes a change in the session. -/
def WorldChange.action : WorldChange Float → Action
  | replace transform => .setTransform transform
  | combine matrix append => .multiply matrix append

/-- Records that are about the transform ask for the change that they stand for. -/
theorem actions_of_effect {kind : Kind} (hEffect : kind.effect = .transform) (f : Flags)
    (p : Bytes) :
    (actions kind f p).actions =
      ((Numerals.drawn.changeOf? kind f p).map WorldChange.action).toList := by
  cases kind with
  | setWorldTransform | multiplyWorldTransform | translateWorldTransform | scaleWorldTransform
  | rotateWorldTransform =>
      simp only [actions, actions_ofExcept_need, Numerals.changeOf?]
      split <;> rfl
  | resetWorldTransform => rfl
  | _ => cases hEffect

/-- Only records that restore a transform ask for that. -/
theorem asks_ne_restore {kind : Kind} (hKind : kind ≠ .restore) (f : Flags) (p : Bytes) :
    Reading.Asks (fun action => ∀ index, action ≠ .restore index) (actions kind f p) := by
  intro action hMem index hRestore
  have hEffect := asks_effect kind f p action hMem
  rw [hRestore] at hEffect
  cases kind with
  | save =>
      rw [actions, actions_ofExcept_need, List.mem_ite_nil_right, List.mem_singleton] at hMem
      rw [hRestore] at hMem
      cases hMem.2
  | restore => exact hKind rfl
  | _ => cases hEffect

/-- Kinds that are not about the transform do not change it. -/
theorem changeOf?_eq_none {α : Type} [OfNat α 0] [OfNat α 1] (n : Numerals α) {kind : Kind}
    (hEffect : kind.effect ≠ .transform) (f : Flags) (p : Bytes) :
    n.changeOf? kind f p = none := by
  cases kind with
  | setWorldTransform | resetWorldTransform | multiplyWorldTransform | translateWorldTransform
  | scaleWorldTransform | rotateWorldTransform => exact absurd rfl hEffect
  | _ => rfl

namespace Session

variable {s : Session}

/-- Only actions about the transform and those that restore one change it. -/
theorem transform_step {action : Action} (hEffect : action.effect ≠ .transform)
    (hRestore : ∀ index, action ≠ .restore index) :
    (s.step action).transform = s.transform := by
  cases action with
  | setTransform _ | multiply _ _ => exact absurd rfl hEffect
  | restore index => exact absurd rfl (hRestore index)
  | _ => rfl

/-- The action of a change acts on the transform of the session by the same operations, in
binary64. -/
theorem transform_step_action (change : WorldChange Float) :
    (s.step change.action).transform = change.act s.transform := by
  cases change <;> rfl

/-- Records that restore nothing change the transform of a session as they say. -/
theorem transform_run_reading {r : Record}
    (hRestore : Kind.ofCode? (r.opcode % 0x10000) ≠ some .restore) :
    (plotter.run s (reading r).actions).transform =
      (Numerals.drawn.change? r).elim s.transform (WorldChange.act s.transform) := by
  unfold reading Numerals.change?
  cases hKind : Kind.ofCode? (r.opcode % 0x10000) with
  | none => rfl
  | some kind =>
      show (plotter.run s (actions kind ⟨r.flags⟩ r.payload).actions).transform =
        (Numerals.drawn.changeOf? kind ⟨r.flags⟩ r.payload).elim s.transform _
      by_cases hEffect : kind.effect = .transform
      · rw [actions_of_effect hEffect]
        cases Numerals.drawn.changeOf? kind ⟨r.flags⟩ r.payload with
        | none => rfl
        | some change => exact transform_step_action change
      · have hKind : kind ≠ .restore := by
          rintro rfl
          exact hRestore hKind
        have hAsks : ∀ action ∈ (actions kind ⟨r.flags⟩ r.payload).actions,
            action.effect ≠ .transform ∧ ∀ index, action ≠ .restore index := by
          intro action hMem
          rw [asks_effect kind _ _ action hMem]
          exact ⟨hEffect, asks_ne_restore hKind _ _ action hMem⟩
        rw [changeOf?_eq_none _ hEffect]
        apply plotter.run_preserves (fun later => later.transform = s.transform) _ hAsks rfl
        intro later action hHolds hAllowed
        exact (transform_step hAllowed.1 hAllowed.2).trans hHolds

end Session

/-- The transform of a session is the one that its records compose to in binary64 numbers. -/
theorem transform_after {rs : List Record}
    (hRestore : ∀ r ∈ rs, Kind.ofCode? (r.opcode % 0x10000) ≠ some .restore) (s : Session) :
    (after s rs).transform = Numerals.drawn.world s.transform rs := by
  induction rs generalizing s with
  | nil => rfl
  | cons r rest ih =>
      obtain ⟨hFirst, hRest⟩ := List.forall_mem_cons.1 hRestore
      rw [after_cons, ih hRest, Session.transform_run_reading hFirst, Numerals.world_cons]

/-- Behind a record that sets the transform, and as long as no other one replaces it, the
world transform maps a point by the matrices that are not appended, the last one first, then
by the transform that was set, and then by the appended matrices, the first one first. An
appended matrix may change places with one that is not. The transform of a session is computed
by the same operations, in binary64 numbers. -/
theorem apply_world {R : Type} [CommRing R] (n : Numerals R) {start : Record} {t : Affine R}
    (hStart : n.change? start = some (.replace t)) {rs : List Record}
    (hKeeps : ∀ r ∈ rs, replacesWorld r = false) :
    (∀ earlier p, (n.world earlier (start :: rs)).apply p =
        (n.appended rs).foldl (fun q matrix => matrix.apply q)
          (t.apply ((n.prepended rs).foldr Affine.apply p))) ∧
      (∀ earlier before first second behind appended prepended,
        n.change? first = some (.combine appended true) →
          n.change? second = some (.combine prepended false) →
            n.world earlier (before ++ first :: second :: behind) =
              n.world earlier (before ++ second :: first :: behind)) ∧
      ∀ s : Session, (after s (start :: rs)).transform =
        Numerals.drawn.world s.transform (start :: rs) := by
  refine ⟨?_, ?_, ?_⟩
  · intro earlier p
    have hCombine : ∀ change ∈ rs.filterMap n.change?, change.isCombine := by
      intro change hMem
      obtain ⟨r, hr, hChange⟩ := List.mem_filterMap.1 hMem
      exact n.isCombine_of_keeps (hKeeps r hr) hChange
    rw [n.world_cons, hStart]
    exact WorldChange.apply_foldl_act hCombine t p
  · intro earlier before first second behind appended prepended hFirst hSecond
    simp only [n.world_append, n.world_cons, hFirst, hSecond, Option.elim_some]
    rw [WorldChange.act_comm]
  · apply transform_after
    rintro r (_ | ⟨_, hMem⟩) hKind
    · rw [Numerals.change?, hKind] at hStart
      cases hStart
    · have hKeep := hKeeps r hMem
      rw [replacesWorld, hKind] at hKeep
      cases hKeep

/-- A shear behind which a shift and a quarter turn act first and a scaling and another shift
last. The point (1, 1) goes by the turn to (-1, 1), by the first shift to (0, 3), by the shear
to (3, 3), by the scaling to (6, 9) and by the last shift to (11, 9). -/
theorem apply_world_mixedShear :
    let n := Numerals.exact fun _ => ⟨0, 1, -1, 0, 0, 0⟩
    let one : List UInt8 := [0, 0, 0x80, 0x3F]
    let two : List UInt8 := [0, 0, 0, 0x40]
    let three : List UInt8 := [0, 0, 0x40, 0x40]
    let five : List UInt8 := [0, 0, 0xA0, 0x40]
    let zero : List UInt8 := [0, 0, 0, 0]
    let shear : Record :=
      ⟨0x402A, 36, 0, 0, (one ++ two ++ zero ++ one ++ three ++ zero).toArray⟩
    let shift : Record := ⟨0x402D, 20, 0, 36, (one ++ two).toArray⟩
    let scale : Record := ⟨0x402E, 20, 0x2000, 56, (two ++ three).toArray⟩
    let turn : Record := ⟨0x402F, 16, 0, 76, #[0, 0, 0xB4, 0x42]⟩
    let push : Record := ⟨0x402D, 20, 0x2000, 92, (five ++ zero).toArray⟩
    n.change? shear = some (.replace ⟨1, 2, 0, 1, 3, 0⟩) ∧
      (∀ r ∈ [shift, scale, turn, push], replacesWorld r = false) ∧
      (n.world .identity [shear, shift, scale, turn, push]).apply ⟨1, 1⟩ = ⟨11, 9⟩ ∧
      n.world .identity [shear, shift, scale, turn, push] =
        n.world .identity [shear, shift, turn, scale, push] := by
  intro n one two three five zero shear shift scale turn push
  have hShear : n.change? shear = some (.replace ⟨1, 2, 0, 1, 3, 0⟩) := by
    decide +kernel
  have hKeeps : ∀ r ∈ [shift, scale, turn, push], replacesWorld r = false := by decide
  obtain ⟨hApply, hExchange, -⟩ := apply_world n hShear hKeeps
  refine ⟨hShear, hKeeps, ?_, ?_⟩
  · rw [hApply]
    decide +kernel
  · exact hExchange .identity [shear, shift] scale turn [push] ⟨2, 0, 0, 3, 0, 0⟩
      ⟨0, 1, -1, 0, 0, 0⟩ (by decide +kernel) (by decide +kernel)

end Plus

end Metafile
