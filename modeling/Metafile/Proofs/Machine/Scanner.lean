import Metafile.Bytes.Cursor
import Metafile.Proofs.Machine.Decode

/-! The loop along a stream of records, for every way of reading the single record with a cursor. A
step may remember something from one call to the next, and may leave the cursor anywhere when it
finds no record. The loop comes to its end all the same, goes ahead with every call, and its limit
does nothing but cut off the records behind it. -/

namespace Metafile.Machine

open Word

theorem position_lt_size {data : Bytes} {c : Cursor} (hData : c.data = data)
    (hLeft : 0 < c.remaining) : c.position < data.size := hData ▸ Nat.lt_of_sub_pos hLeft

/-- What a step finds where the cursor stands. -/
inductive Finding where
  | record (record : Record)
  | bad (fault : Fault)
  | stop

def Finding.record? : Finding → Option Record
  | record r => some r
  | _ => none

/-- What a call of a step leaves behind. -/
structure Scan (μ : Type) where
  finding : Finding
  cursor : Cursor
  memory : μ

/-- A step reads on from where the cursor stands, in the buffer of the cursor. -/
structure Scanner (μ : Type) where
  scan : μ → Cursor → Scan μ
  data_scan (memory : μ) (c : Cursor) : (scan memory c).cursor.data = c.data

/-- How far behind the start of a bad record the loop goes on, and how many good ones it takes. -/
structure Policy where
  resync : Nat
  limit : Nat

/-- A call of a step: where the cursor stood, and what was found there. -/
structure Attempt where
  position : Nat
  finding : Finding

namespace Attempt

/-- The records that were found, in the order of the calls. -/
def records (attempts : List Attempt) : List Record :=
  attempts.filterMap fun attempt => attempt.finding.record?

@[simp]
theorem records_nil : records [] = [] := rfl

@[simp]
theorem records_cons_record (position : Nat) (r : Record) (attempts : List Attempt) :
    records (⟨position, .record r⟩ :: attempts) = r :: records attempts := rfl

/-- The calls are made between `first` and `size`, each of them behind the one before it. -/
def Ascend (first size : Nat) (attempts : List Attempt) : Prop :=
  (∀ attempt ∈ attempts, first ≤ attempt.position ∧ attempt.position < size) ∧
    (attempts.map Attempt.position).Pairwise (· < ·)

/-- An attempt before others keeps the positions ascending if it was made before where they
begin. -/
theorem Ascend.cons {position next size : Nat} {attempts : List Attempt}
    (hAttempts : Ascend next size attempts) (hInside : position < size) (hNext : position < next)
    (finding : Finding) : Ascend position size (⟨position, finding⟩ :: attempts) := by
  refine ⟨List.forall_mem_cons.2 ⟨⟨Nat.le_refl _, hInside⟩, fun attempt hMem => ?_⟩, ?_⟩
  · obtain ⟨hBehind, hBefore⟩ := hAttempts.1 attempt hMem
    exact ⟨by omega, hBefore⟩
  · rw [List.map_cons, List.pairwise_cons]
    refine ⟨List.forall_mem_map.2 fun attempt hMem => ?_, hAttempts.2⟩
    exact Nat.lt_of_lt_of_le hNext (hAttempts.1 attempt hMem).1

/-- There is no room for more calls than there are places. -/
theorem Ascend.length_le {first size : Nat} {attempts : List Attempt}
    (hAttempts : Ascend first size attempts) : attempts.length ≤ size - first := by
  induction attempts generalizing first with
  | nil => exact Nat.zero_le _
  | cons attempt rest ih =>
      obtain ⟨⟨hFirst, hBefore⟩, hRest⟩ := List.forall_mem_cons.1 hAttempts.1
      obtain ⟨hBehind, hOrder⟩ := List.pairwise_cons.1 hAttempts.2
      have hLater : Ascend (attempt.position + 1) size rest :=
        ⟨fun other hMem => ⟨List.forall_mem_map.1 hBehind other hMem, (hRest other hMem).2⟩, hOrder⟩
      have hLength := ih hLater
      rw [List.length_cons]
      omega

/-- The stop on the way that a call makes. -/
def visit? : Attempt → Option Visit
  | ⟨_, .record r⟩ => some (.record r)
  | ⟨position, .bad fault⟩ => some (.skipped position fault)
  | ⟨_, .stop⟩ => none

end Attempt

namespace Scanner

variable {μ : Type}

/-- Where the loop goes on when a step fails, wherever that left the cursor. -/
def resume (s : Scanner μ) (resync : Nat) (memory : μ) (c : Cursor) : Cursor :=
  (s.scan memory c).cursor.seek (addSaturating c.position (max resync 1))

/-- The calls of the loop in their order and all the records that it collects, with those in `found`
before the first call. A loop that has not come to its end after `rounds` calls has no value. -/
def walk (s : Scanner μ) (policy : Policy) (rounds : Nat) (memory : μ) (c : Cursor)
    (found : List Record) : Option (List Attempt × List Record) :=
  if 0 < c.remaining ∧ found.length < policy.limit then
    match rounds with
    | 0 => none
    | rounds + 1 =>
      let after := s.scan memory c
      let attempt : Attempt := ⟨c.position, after.finding⟩
      match after.finding with
      | .record r =>
        (s.walk policy rounds after.memory after.cursor (found ++ [r])).map
          (Prod.map (attempt :: ·) id)
      | .bad _ =>
        (s.walk policy rounds after.memory (s.resume policy.resync memory c) found).map
          (Prod.map (attempt :: ·) id)
      | .stop => some ([attempt], found)
  else some ([], found)

/-- A step that finds a record leaves the cursor behind the place where it was called. -/
def Advances (s : Scanner μ) (data : Bytes) : Prop :=
  ∀ memory c r, c.data = data → 0 < c.remaining → (s.scan memory c).finding = .record r →
    c.position < (s.scan memory c).cursor.position

/-- What a step does is the same whatever it remembers. -/
def DependsOnCursor (s : Scanner μ) : Prop :=
  ∀ memory other c, (s.scan memory c).finding = (s.scan other c).finding ∧
    (s.scan memory c).cursor = (s.scan other c).cursor

/-- A step finds at every place of the buffer what is found there by the position alone. -/
def Follows (s : Scanner μ) (data : Bytes) (step : (position : Nat) → Step position) : Prop :=
  ∀ memory c, c.data = data → 0 < c.remaining →
    (step c.position).Meets
      (fun r next => (s.scan memory c).finding = .record r ∧
        (s.scan memory c).cursor.position = min next data.size)
      (fun fault => (s.scan memory c).finding = .bad fault)
      ((s.scan memory c).finding = .stop)

namespace Follows

variable {s : Scanner μ} {data : Bytes} {step : (position : Nat) → Step position} {memory : μ}
  {c : Cursor}

/-- Where the scanner finds a record, the walk finds the same one, and the cursor goes to its end
or to the end of the stream. With a fault or a stop it is the same. -/
theorem exists_found {r : Record} (hFollows : s.Follows data step) (hData : c.data = data)
    (hLeft : 0 < c.remaining) (hFinding : (s.scan memory c).finding = .record r) :
    ∃ next hAdvances, step c.position = .found r next hAdvances ∧
      (s.scan memory c).cursor.position = min next data.size := by
  have hMeets := hFollows memory c hData hLeft
  cases hStep : step c.position with
  | found other next hAdvances =>
      obtain ⟨hOther, hNext⟩ := hMeets.of_found hStep
      cases hFinding.symm.trans hOther
      exact ⟨next, hAdvances, rfl, hNext⟩
  | bad fault => cases hFinding.symm.trans (hMeets.of_bad hStep)
  | stop => cases hFinding.symm.trans (hMeets.of_stop hStep)

theorem step_eq_bad {fault : Fault} (hFollows : s.Follows data step) (hData : c.data = data)
    (hLeft : 0 < c.remaining) (hFinding : (s.scan memory c).finding = .bad fault) :
    step c.position = .bad fault := by
  have hMeets := hFollows memory c hData hLeft
  cases hStep : step c.position with
  | found r next hAdvances => cases hFinding.symm.trans (hMeets.of_found hStep).1
  | bad other =>
      cases hFinding.symm.trans (hMeets.of_bad hStep)
      rfl
  | stop => cases hFinding.symm.trans (hMeets.of_stop hStep)

theorem step_eq_stop (hFollows : s.Follows data step) (hData : c.data = data)
    (hLeft : 0 < c.remaining) (hFinding : (s.scan memory c).finding = .stop) :
    step c.position = .stop := by
  have hMeets := hFollows memory c hData hLeft
  cases hStep : step c.position with
  | found r next hAdvances => cases hFinding.symm.trans (hMeets.of_found hStep).1
  | bad fault => cases hFinding.symm.trans (hMeets.of_bad hStep)
  | stop => rfl

/-- A scanner that follows a step moves on whenever it is asked again. A record ends behind its
start, and a bad place is skipped by a byte at least. -/
theorem advances (hFollows : s.Follows data step) : s.Advances data := by
  intro memory c r hData hLeft hFinding
  obtain ⟨next, hAdvances, -, hNext⟩ := hFollows.exists_found hData hLeft hFinding
  have hInside := position_lt_size hData hLeft
  rw [hNext]
  omega

end Follows

@[simp]
theorem data_resume (s : Scanner μ) (resync : Nat) (memory : μ) (c : Cursor) :
    (s.resume resync memory c).data = c.data := s.data_scan memory c

/-- Where the sum is past the greatest word it is past the end of the buffer, too. -/
theorem position_resume (s : Scanner μ) {c : Cursor} (hSize : c.data.size < 2 ^ 63) (resync : Nat)
    (memory : μ) : (s.resume resync memory c).position =
      min c.data.size (c.position + max 1 resync) := by
  have hSeek : (s.resume resync memory c).position =
      min (addSaturating c.position (max resync 1)) (s.scan memory c).cursor.data.size := rfl
  rw [hSeek, s.data_scan, addSaturating]
  omega

end Scanner

/-- The calls of a loop with room for `room` more records, from a state between two calls to the
end of the loop. -/
inductive Trail {μ : Type} (s : Scanner μ) (resync : Nat) :
    μ → Cursor → (room : Nat) → List Attempt → Prop where
  | ended {memory : μ} {c : Cursor} {room : Nat} (hEnded : ¬(0 < c.remaining ∧ 0 < room)) :
      Trail s resync memory c room []
  | record {memory : μ} {c : Cursor} {room : Nat} {r : Record} {attempts : List Attempt}
      (hGoes : 0 < c.remaining ∧ 0 < room) (hFinding : (s.scan memory c).finding = .record r)
      (later :
        Trail s resync (s.scan memory c).memory (s.scan memory c).cursor (room - 1) attempts) :
      Trail s resync memory c room (⟨c.position, .record r⟩ :: attempts)
  | bad {memory : μ} {c : Cursor} {room : Nat} {fault : Fault} {attempts : List Attempt}
      (hGoes : 0 < c.remaining ∧ 0 < room) (hFinding : (s.scan memory c).finding = .bad fault)
      (later : Trail s resync (s.scan memory c).memory (s.resume resync memory c) room attempts) :
      Trail s resync memory c room (⟨c.position, .bad fault⟩ :: attempts)
  | stop {memory : μ} {c : Cursor} {room : Nat}
      (hGoes : 0 < c.remaining ∧ 0 < room) (hFinding : (s.scan memory c).finding = .stop) :
      Trail s resync memory c room [⟨c.position, .stop⟩]

namespace Trail

variable {μ : Type} {s : Scanner μ} {resync : Nat} {memory : μ} {c : Cursor} {room : Nat}
  {attempts : List Attempt}

/-- The loop makes the calls of the trail and collects their records, if it is given as many
rounds. -/
theorem walk_eq {policy : Policy} (hTrail : Trail s policy.resync memory c room attempts)
    {found : List Record} (hRoom : room = policy.limit - found.length) {rounds : Nat}
    (hRounds : attempts.length ≤ rounds) :
    s.walk policy rounds memory c found = some (attempts, found ++ Attempt.records attempts) := by
  induction hTrail generalizing found rounds with
  | ended hEnded =>
      rw [Scanner.walk.eq_def, if_neg (by omega), Attempt.records_nil, List.append_nil]
  | @record memory c room r attempts hGoes hFinding later ih =>
      obtain ⟨rounds, rfl⟩ := Nat.exists_eq_add_one.2 (Nat.zero_lt_of_lt hRounds)
      have hLater : room - 1 = policy.limit - (found ++ [r]).length := by
        rw [List.length_append, List.length_singleton]
        omega
      rw [Scanner.walk, if_pos (by omega)]
      simp only [hFinding]
      rw [ih hLater (Nat.le_of_succ_le_succ hRounds), Attempt.records_cons_record]
      simp
  | bad hGoes hFinding later ih =>
      obtain ⟨rounds, rfl⟩ := Nat.exists_eq_add_one.2 (Nat.zero_lt_of_lt hRounds)
      rw [Scanner.walk, if_pos (by omega)]
      simp only [hFinding]
      rw [ih hRoom (Nat.le_of_succ_le_succ hRounds)]
      rfl
  | stop hGoes hFinding =>
      obtain ⟨rounds, rfl⟩ := Nat.exists_eq_add_one.2 (Nat.zero_lt_of_lt hRounds)
      rw [Scanner.walk, if_pos (by omega)]
      simp only [hFinding]
      exact congrArg (fun records => some (_, records)) (List.append_nil found).symm

/-- A step that advances brings every loop to its end. -/
theorem exists_trail {data : Bytes} (hSize : data.size < 2 ^ 63) (hAdvances : s.Advances data)
    (resync : Nat) (memory : μ) {c : Cursor} (hData : c.data = data) (room : Nat) :
    ∃ attempts, Trail s resync memory c room attempts := by
  induction hLeft : c.remaining using Nat.strongRecOn generalizing memory c room with
  | _ left ih =>
    by_cases hGoes : 0 < c.remaining ∧ 0 < room
    · have hScanData := s.data_scan memory c
      have hRemaining : c.remaining = c.data.size - c.position := rfl
      cases hFinding : (s.scan memory c).finding with
      | record r =>
          have hBehind := hAdvances memory c r hData hGoes.1 hFinding
          have hLess : (s.scan memory c).cursor.remaining < left := by
            rw [Cursor.remaining, hScanData]
            omega
          obtain ⟨attempts, later⟩ := ih _ hLess (s.scan memory c).memory (hScanData.trans hData)
            (room - 1) rfl
          exact ⟨_, .record hGoes hFinding later⟩
      | bad fault =>
          have hBehind := s.position_resume (hData ▸ hSize) resync memory
          have hLess : (s.resume resync memory c).remaining < left := by
            rw [Cursor.remaining, hBehind, s.data_resume]
            omega
          obtain ⟨attempts, later⟩ := ih _ hLess (s.scan memory c).memory
            ((s.data_resume resync memory c).trans hData) room rfl
          exact ⟨_, .bad hGoes hFinding later⟩
      | stop => exact ⟨_, .stop hGoes hFinding⟩
    · exact ⟨[], .ended hGoes⟩

/-- The loop goes ahead from where it starts and makes no call behind the end. -/
theorem ascend {data : Bytes} (hSize : data.size < 2 ^ 63) (hAdvances : s.Advances data)
    (hData : c.data = data) (hTrail : Trail s resync memory c room attempts) :
    Attempt.Ascend c.position data.size attempts := by
  induction hTrail with
  | ended hEnded => exact ⟨nofun, .nil⟩
  | @record memory c room r attempts hGoes hFinding later ih =>
      have hInside := position_lt_size hData hGoes.1
      have hLater := ih ((s.data_scan memory c).trans hData)
      exact hLater.cons hInside (hAdvances memory c r hData hGoes.1 hFinding) _
  | @bad memory c room fault attempts hGoes hFinding later ih =>
      have hInside := position_lt_size hData hGoes.1
      have hLater := ih ((s.data_resume resync memory c).trans hData)
      rw [s.position_resume (hData ▸ hSize), hData] at hLater
      exact hLater.cons hInside (by omega) _
  | @stop memory c room hGoes hFinding =>
      have hInside := position_lt_size hData hGoes.1
      exact ⟨by simpa using hInside, List.pairwise_singleton ..⟩

/-- Where the loop goes on, the next call is made right there. -/
theorem position_head? (hTrail : Trail s resync memory c room attempts) :
    attempts.head?.map Attempt.position =
      if 0 < c.remaining ∧ 0 < room then some c.position else none := by
  cases hTrail with
  | ended hEnded => rw [if_neg hEnded]; rfl
  | record hGoes | bad hGoes | stop hGoes => rw [if_pos hGoes]; rfl

/-- A step that fails is called again a fixed way behind the place where it failed, or never if
the buffer has its end before that. -/
theorem position_after_bad {data : Bytes} (hSize : data.size < 2 ^ 63) (hData : c.data = data)
    (hTrail : Trail s resync memory c room attempts) {i : Nat} {attempt : Attempt} {fault : Fault}
    (hAttempt : attempts[i]? = some attempt) (hBad : attempt.finding = .bad fault) :
    (attempts[i + 1]?).map Attempt.position =
      if attempt.position + max 1 resync < data.size then some (attempt.position + max 1 resync)
      else none := by
  induction hTrail generalizing i with
  | ended hEnded => cases hAttempt
  | @record memory c room r attempts hGoes hFinding later ih =>
      cases i with
      | zero =>
          obtain rfl := Option.some.inj hAttempt
          cases hBad
      | succ i => exact ih ((s.data_scan memory c).trans hData) hAttempt
  | @bad memory c room fault attempts hGoes hFinding later ih =>
      cases i with
      | zero =>
          obtain rfl := Option.some.inj hAttempt
          have hNext := later.position_head?
          rw [List.head?_eq_getElem?, Cursor.remaining, s.data_resume,
            s.position_resume (hData ▸ hSize), hData] at hNext
          rw [List.getElem?_cons_succ, hNext]
          dsimp only
          split
          case isTrue hInside => rw [if_pos (by omega), Nat.min_eq_right (by omega)]
          case isFalse hPast => rw [if_neg (by omega)]
      | succ i => exact ih ((s.data_resume resync memory c).trans hData) hAttempt
  | stop hGoes hFinding =>
      cases i with
      | zero =>
          obtain rfl := Option.some.inj hAttempt
          cases hBad
      | succ i => cases hAttempt

/-- With less room, a step that looks at the cursor alone finds as many of the records as there is
room for, whatever it remembers. -/
theorem exists_shorter (hDepends : s.DependsOnCursor)
    (hTrail : Trail s resync memory c room attempts) (other : μ) {less : Nat}
    (hLess : less ≤ room) : ∃ first, Trail s resync other c less first ∧
      Attempt.records first = (Attempt.records attempts).take less := by
  induction hTrail generalizing other less with
  | ended hEnded => exact ⟨[], .ended (by omega), List.take_nil.symm⟩
  | @record memory c room r attempts hGoes hFinding later ih =>
      cases less with
      | zero => exact ⟨[], .ended (by omega), rfl⟩
      | succ less =>
          obtain ⟨hSame, hCursor⟩ := hDepends memory other c
          have hRoom : less ≤ room - 1 := by omega
          obtain ⟨first, hFirst, hRecords⟩ := ih (s.scan other c).memory hRoom
          rw [hCursor] at hFirst
          refine ⟨_, .record (by omega) (hSame ▸ hFinding) hFirst, ?_⟩
          rw [Attempt.records_cons_record, Attempt.records_cons_record, hRecords,
            List.take_succ_cons]
  | @bad memory c room fault attempts hGoes hFinding later ih =>
      cases less with
      | zero => exact ⟨[], .ended (by omega), rfl⟩
      | succ less =>
          obtain ⟨hSame, hCursor⟩ := hDepends memory other c
          obtain ⟨first, hFirst, hRecords⟩ := ih (s.scan other c).memory hLess
          rw [Scanner.resume, hCursor] at hFirst
          exact ⟨_, .bad (by omega) (hSame ▸ hFinding) hFirst, hRecords⟩
  | @stop memory c room hGoes hFinding =>
      cases less with
      | zero => exact ⟨[], .ended (by omega), rfl⟩
      | succ less =>
          obtain ⟨hSame, -⟩ := hDepends memory other c
          exact ⟨_, .stop (by omega) (hSame ▸ hFinding), rfl⟩

/-- A step that finds what is found by the position alone goes the way that is walked by the
position alone. -/
theorem filterMap_visit?_eq_walk {data : Bytes} {step : (position : Nat) → Step position}
    (hFollows : s.Follows data step) (hSize : data.size < 2 ^ 63) (hData : c.data = data)
    (hTrail : Trail s resync memory c room attempts) :
    attempts.filterMap Attempt.visit? = Metafile.walk data.size step resync c.position room := by
  induction hTrail with
  | @ended memory c room hEnded =>
      have hRemaining : c.remaining = data.size - c.position := hData ▸ rfl
      rw [Metafile.walk, if_neg (by omega)]
      rfl
  | @record memory c room r attempts hGoes hFinding later ih =>
      have hInside := position_lt_size hData hGoes.1
      obtain ⟨next, hAdvances, hStep, hNext⟩ := hFollows.exists_found hData hGoes.1 hFinding
      have hLater := ih ((s.data_scan memory c).trans hData)
      rw [hNext, walk_min] at hLater
      rw [walk_found hInside hGoes.2 hStep, ← hLater]
      rfl
  | @bad memory c room fault attempts hGoes hFinding later ih =>
      have hInside := position_lt_size hData hGoes.1
      have hStep := hFollows.step_eq_bad hData hGoes.1 hFinding
      have hLater := ih ((s.data_resume resync memory c).trans hData)
      rw [s.position_resume (hData ▸ hSize), hData, Nat.min_comm, walk_min, Nat.max_comm] at hLater
      rw [walk_bad hInside hGoes.2 hStep, ← hLater]
      rfl
  | stop hGoes hFinding =>
      rw [walk_stop (hFollows.step_eq_stop hData hGoes.1 hFinding)]
      rfl

end Trail

namespace Scanner

/-- The step of a format as a scanner. Where it finds no record, the cursor may be left anywhere. -/
def ofNext (next : Reader → Option Found) (left : Cursor → Nat) : Scanner Unit where
  scan _ c :=
    match next ⟨c.data, c.position⟩ with
    | some (.record r after) => ⟨.record r, c.seek after.position, ()⟩
    | some (.bad fault) => ⟨.bad fault, c.seek (left c), ()⟩
    | _ => ⟨.stop, c.seek (left c), ()⟩
  data_scan _ c := by
    split <;> rfl

/-- A format that finds records on the machine is a scanner that follows the step of this
format. -/
theorem follows_ofNext {data : Bytes} {next : Reader → Option Found}
    {step : (position : Nat) → Step position}
    (hNext : ∀ position, position ≤ data.size →
      next ⟨data, position⟩ = some (.ofStep data (step position)))
    (left : Cursor → Nat) : (ofNext next left).Follows data step := by
  rintro memory c rfl -
  simp only [ofNext, hNext c.position c.position_le]
  cases step c.position with
  | found r next hAdvances =>
      refine ⟨rfl, ?_⟩
      simp [Found.ofStep]
  | bad fault => rfl
  | stop => rfl

/-- The steps of the three formats advance. The loop over any step that does ends after no more
calls than there are bytes left, with whatever policy; the calls go ahead, and by the same way after
every failure; the records are those of the calls in their order; and a limit cuts off what a
greater one lets through. A scanner of a format goes the way that is walked in decoding a file. -/
theorem walk_ends :
    (∀ (data : Bytes) (base : Nat) (left : Cursor → Nat), base + data.size < 2 ^ 63 →
      ((ofNext Wmf.next left).Advances data ∧
        (ofNext Wmf.next left).Follows data (Metafile.Wmf.recordAt data)) ∧
      ((ofNext Emf.next left).Advances data ∧
        (ofNext Emf.next left).Follows data (Metafile.Emf.recordAt data)) ∧
      ((ofNext (Plus.next base) left).Advances data ∧
        (ofNext (Plus.next base) left).Follows data (Metafile.Plus.recordAt data base))) ∧
    ∀ {μ : Type} (s : Scanner μ) (policy : Policy) (memory : μ) (c : Cursor),
      c.data.size < 2 ^ 63 → s.Advances c.data → ∃ attempts records,
        (∀ rounds, c.remaining ≤ rounds →
          s.walk policy rounds memory c [] = some (attempts, records)) ∧
        attempts.length ≤ c.remaining ∧
        (attempts.map Attempt.position).Pairwise (· < ·) ∧
        (∀ i attempt fault, attempts[i]? = some attempt → attempt.finding = .bad fault →
          (attempts[i + 1]?).map Attempt.position =
            if attempt.position + max 1 policy.resync < c.data.size then
              some (attempt.position + max 1 policy.resync)
            else none) ∧
        records = attempts.filterMap (fun attempt => attempt.finding.record?) ∧
        (s.DependsOnCursor → ∀ other limit, policy.limit ≤ limit → ∃ more all,
          (∀ rounds, c.remaining ≤ rounds →
            s.walk { policy with limit } rounds other c [] = some (more, all)) ∧
          records = all.take policy.limit) ∧
        ∀ step, s.Follows c.data step →
          attempts.filterMap Attempt.visit? =
            Metafile.walk c.data.size step policy.resync c.position policy.limit := by
  refine ⟨fun data base left hSize => ?_, fun s policy memory c hSize hAdvances => ?_⟩
  · have hData : data.size < 2 ^ 63 := by omega
    have hWmf := follows_ofNext (fun _ => Wmf.next_eq hData) left
    have hEmf := follows_ofNext (fun _ => Emf.next_eq hData) left
    have hPlus := follows_ofNext (fun _ => Plus.next_eq hSize) left
    exact ⟨⟨hWmf.advances, hWmf⟩, ⟨hEmf.advances, hEmf⟩, ⟨hPlus.advances, hPlus⟩⟩
  · obtain ⟨attempts, hTrail⟩ :=
      Trail.exists_trail hSize hAdvances policy.resync memory rfl policy.limit
    have hAscend := hTrail.ascend hSize hAdvances rfl
    have hWalk (rounds : Nat) (hRounds : c.remaining ≤ rounds) :
        s.walk policy rounds memory c [] = some (attempts, Attempt.records attempts) :=
      hTrail.walk_eq rfl (Nat.le_trans hAscend.length_le hRounds)
    refine ⟨attempts, Attempt.records attempts, hWalk, hAscend.length_le, hAscend.2,
      fun i attempt fault => hTrail.position_after_bad hSize rfl, rfl, ?_,
      fun step hFollows => hTrail.filterMap_visit?_eq_walk hFollows hSize rfl⟩
    intro hDepends other limit hLimit
    obtain ⟨more, hMore⟩ := Trail.exists_trail hSize hAdvances policy.resync other rfl limit
    have hMoreAscend := hMore.ascend hSize hAdvances rfl
    refine ⟨more, Attempt.records more, fun rounds hRounds => ?_, ?_⟩
    · refine Trail.walk_eq ?_ rfl (Nat.le_trans hMoreAscend.length_le hRounds)
      exact hMore
    · -- Both the shorter trail and the trail above are what the loop does, so they are the same.
      obtain ⟨first, hFirst, hRecords⟩ := hMore.exists_shorter hDepends memory hLimit
      have hSame := hWalk (max c.remaining first.length) (Nat.le_max_left ..)
      rw [hFirst.walk_eq rfl (Nat.le_max_right ..)] at hSame
      obtain rfl := congrArg Prod.fst (Option.some.inj hSame)
      exact hRecords

/-- Fails at the first places, and goes back to the start of the buffer when it does. It counts its
attempts, but never looks at the count. -/
def stumbling : Scanner Nat where
  scan count c :=
    if c.position < 4 then ⟨.bad (.sizeBelowHeader c.position), c.seek 0, count + 1⟩
    else ⟨.record ⟨1, 2, 0, c.position, (c.readBytes 2).1⟩, (c.readBytes 2).2, count + 1⟩
  data_scan count c := by
    split <;> rfl

/-- The scanner fails at the first four places, each one byte behind the last, and then finds
records. A limit of two cuts off all others. -/
theorem walk_ends_stumbling :
    let c := Cursor.ofBytes (Array.replicate 10 0)
    16 + c.data.size < 2 ^ 63 ∧ (ofNext (Plus.next 16) Cursor.position).Advances c.data ∧
      stumbling.Advances c.data ∧ stumbling.DependsOnCursor ∧
      ∃ attempts records, stumbling.walk ⟨0, 2⟩ 10 0 c [] = some (attempts, records) ∧
        attempts.map Attempt.position = [0, 1, 2, 3, 4, 6] ∧ records.map Record.offset = [4, 6] ∧
        ∃ more all, stumbling.walk ⟨0, 2 ^ 64 - 1⟩ 10 7 c [] = some (more, all) ∧
          records = all.take 2 := by
  intro c
  have hSize : 16 + c.data.size < 2 ^ 63 := by decide
  have hAdvances : stumbling.Advances c.data := by
    intro memory d r hData hLeft hFinding
    have hInside := position_lt_size rfl hLeft
    by_cases hFirst : d.position < 4
    · simp [stumbling, hFirst] at hFinding
    · simp [stumbling, hFirst, Cursor.readBytes]
      omega
  have hDepends : stumbling.DependsOnCursor := by
    intro memory other d
    by_cases hFirst : d.position < 4 <;> simp [stumbling, hFirst]
  obtain ⟨-, -, hPlus, -⟩ := walk_ends.1 c.data 16 Cursor.position hSize
  obtain ⟨attempts, records, hWalk, -, -, -, -, hLimit, -⟩ :=
    walk_ends.2 stumbling ⟨0, 2⟩ 0 c (by decide) hAdvances
  obtain ⟨more, all, hMore, hTake⟩ := hLimit hDepends 7 (2 ^ 64 - 1) (by decide)
  have hRounds : c.remaining ≤ 10 := by decide
  have hPlaces : (stumbling.walk ⟨0, 2⟩ 10 0 c []).map
      (Prod.map (List.map Attempt.position) (List.map Record.offset)) =
        some ([0, 1, 2, 3, 4, 6], [4, 6]) := by decide +kernel
  rw [hWalk 10 hRounds] at hPlaces
  obtain ⟨hAttempts, hRecords⟩ := Prod.mk.inj (Option.some.inj hPlaces)
  exact ⟨hSize, hPlus, hAdvances, hDepends, attempts, records, hWalk 10 hRounds, hAttempts,
    hRecords, more, all, hMore 10 hRounds, hTake⟩

end Scanner

end Metafile.Machine
