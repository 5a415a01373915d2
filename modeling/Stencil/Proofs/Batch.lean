import Stencil.Fill.Template
import Stencil.Proofs.Document.Completion
import Stencil.Proofs.Sheet.Headroom

/-! Many copies of a template, filled one after the other. Each is filled as it would be alone, and
they are handed over in order until the receiver refuses one or calls the rest off. -/

namespace Stencil

/-! ### Single fills -/

namespace Template

variable {setup : Setup} {bound : Nat} {t : Template}

theorem fill_done {value : Value} {outcome : Attempt Template Report}
    (active : setup.cancelled = false) (ended : t.fill setup bound value = some outcome) :
    outcome.Completes := by
  rw [fill, active, if_neg Bool.false_ne_true] at ended
  cases t with
  | workbook w =>
      obtain ⟨filled, ran, rfl⟩ := Option.map_eq_some_iff.1 ended
      exact (Workbook.fill_done ran).within _
  | document d =>
      cases ended
      exact (d.fill_done _ _).within _

theorem fill_of_le {value : Value} {outcome : Attempt Template Report} {more : Nat}
    (ended : t.fill setup bound value = some outcome) (le : bound ≤ more) :
    t.fill setup more value = some outcome := by
  unfold fill at ended ⊢
  split
  · rename_i called
    rw [if_pos called] at ended
    exact ended
  · rename_i active
    rw [if_neg active] at ended
    cases t with
    | workbook w =>
        obtain ⟨filled, ran, same⟩ := Option.map_eq_some_iff.1 ended
        rw [fillWith, Workbook.fill_of_le ran le, Option.map_some, same]
    | document d => exact ended

/-- Fills that each come to an end do so within one bound. -/
theorem exists_fills (active : setup.cancelled = false) {data : List Value}
    (ends : ∀ value ∈ data, ∃ bound outcome, t.fill setup bound value = some outcome) :
    ∃ (fills : List (Template × Report)) (enough : Nat), ∀ bound ≥ enough,
      data.map (t.fill setup bound) = fills.map fun fill => some (.done fill.1 fill.2) := by
  induction data with
  | nil => exact ⟨[], 0, fun _ _ => rfl⟩
  | cons value rest ih =>
      obtain ⟨first, outcome, ended⟩ := ends value (List.mem_cons_self ..)
      obtain ⟨copy, report, rfl⟩ := fill_done active ended
      obtain ⟨fills, second, others⟩ :=
        ih fun other member => ends other (List.mem_cons_of_mem _ member)
      refine ⟨(copy, report) :: fills, max first second, ?_⟩
      intro bound large
      rw [List.map_cons, List.map_cons, fill_of_le ended (by omega), others bound (by omega)]

end Template

/-! ### Handing over -/

/-- Whether the receiver gets no copy after this answer. -/
def Reply.stops (reply : Reply) : Bool := reply.cancels || reply.refusal.isSome

namespace Batch

/-- The copies with their indices, counted from the one of the first. -/
def callsFrom (index : Nat) (fills : List (Template × Report)) : List (Nat × Template) :=
  fills.mapIdx fun i fill => (index + i, fill.1)

theorem callsFrom_cons (index : Nat) (fill : Template × Report) (rest : List (Template × Report)) :
    callsFrom index (fill :: rest) = (index, fill.1) :: callsFrom (index + 1) rest := by
  have shift : (fun i (fill : Template × Report) => (index + (i + 1), fill.1)) =
      fun i fill => (index + 1 + i, fill.1) := by
    funext i fill
    rw [Nat.add_assoc, Nat.add_comm 1 i]
  rw [callsFrom, List.mapIdx_cons, shift]
  rfl

/-- The calls up to the first one whose answer stops the others. -/
def upToStop (receive : Nat → Template → Reply) (calls : List (Nat × Template)) :
    List (Nat × Template) :=
  calls.take (calls.findIdx (fun call => (receive call.1 call.2).stops) + 1)

variable {receive : Nat → Template → Reply} {call : Nat × Template}

theorem upToStop_of_stops (stops : (receive call.1 call.2).stops = true)
    (later : List (Nat × Template)) : upToStop receive (call :: later) = [call] := by
  rw [upToStop, List.findIdx_cons, stops]
  rfl

theorem upToStop_of_goes_on (goesOn : (receive call.1 call.2).stops = false)
    (later : List (Nat × Template)) :
    upToStop receive (call :: later) = call :: upToStop receive later := by
  rw [upToStop, List.findIdx_cons, goesOn]
  rfl

/-- What comes out of filling the copies from an index on, when `earlier` was reported before. -/
structure Follows (receive : Nat → Template → Reply) (index : Nat) (earlier : List Report)
    (fills : List (Template × Report)) (batch : Batch) : Prop where
  delivered : batch.delivered = upToStop receive (callsFrom index fills)
  completes : batch.result = .ok (earlier ++ fills.map Prod.snd) ↔
    ∀ call ∈ batch.delivered, (receive call.1 call.2).refusal = none ∧
      ((receive call.1 call.2).cancels = true → call.1 + 1 = index + fills.length)
  refused : ∀ call ∈ batch.delivered, ∀ e, (receive call.1 call.2).refusal = some e →
    batch.result = .error e
  calledOff : ∀ call ∈ batch.delivered, (receive call.1 call.2).refusal = none →
    (receive call.1 call.2).cancels = true → call.1 + 1 < index + fills.length →
    batch.result = .error .cancelled

variable {index : Nat} {earlier : List Report} {fill : Template × Report}
  {rest : List (Template × Report)}

theorem follows_nil : Follows receive index earlier [] ⟨[], .ok earlier⟩ where
  delivered := rfl
  completes := by simp
  refused := fun _ member => by cases member
  calledOff := fun _ member => by cases member

theorem follows_of_refused {e : FillError} (refused : (receive index fill.1).refusal = some e) :
    Follows receive index earlier (fill :: rest) ⟨[(index, fill.1)], .error e⟩ := by
  have stops : (receive index fill.1).stops = true := by simp [Reply.stops, refused]
  constructor
  · rw [callsFrom_cons, upToStop_of_stops stops]
  · simp [refused]
  · simp [refused]
  · simp [refused]

theorem follows_of_last (accepted : (receive index fill.1).refusal = none) :
    Follows receive index earlier [fill] ⟨[(index, fill.1)], .ok (earlier ++ [fill.2])⟩ := by
  constructor
  · by_cases cancels : (receive index fill.1).cancels = true
    · rw [callsFrom_cons, upToStop_of_stops (by rw [Reply.stops, cancels, Bool.true_or])]
    · rw [callsFrom_cons, upToStop_of_goes_on (by simp [Reply.stops, accepted, cancels])]
      rfl
  · simp [accepted]
  · simp [accepted]
  · simp [accepted]

/-- What is called off is seen at the next value. -/
theorem follows_of_cancels (accepted : (receive index fill.1).refusal = none)
    (cancels : (receive index fill.1).cancels = true) (more : rest ≠ []) :
    Follows receive index earlier (fill :: rest) ⟨[(index, fill.1)], .error .cancelled⟩ := by
  have stops : (receive index fill.1).stops = true := by rw [Reply.stops, cancels, Bool.true_or]
  have left : 0 < rest.length := List.length_pos_iff.2 more
  constructor
  · rw [callsFrom_cons, upToStop_of_stops stops]
  · simp [cancels, more]
  · simp [accepted]
  · simp

theorem Follows.after {batch : Batch} (accepted : (receive index fill.1).refusal = none)
    (goesOn : (receive index fill.1).cancels = false)
    (later : Follows receive (index + 1) (earlier ++ [fill.2]) rest batch) :
    Follows receive index earlier (fill :: rest)
      { batch with delivered := (index, fill.1) :: batch.delivered } := by
  have active : (receive index fill.1).stops = false := by simp [Reply.stops, accepted, goesOn]
  have count : index + (fill :: rest).length = index + 1 + rest.length := by
    rw [List.length_cons]
    omega
  have reports : earlier ++ (fill :: rest).map Prod.snd =
      earlier ++ [fill.2] ++ rest.map Prod.snd := by simp
  constructor
  · rw [callsFrom_cons, upToStop_of_goes_on active, later.delivered]
  · rw [reports, count, List.forall_mem_cons, later.completes]
    simp [accepted, goesOn]
  · rw [List.forall_mem_cons]
    exact ⟨by simp [accepted], later.refused⟩
  · rw [count, List.forall_mem_cons]
    exact ⟨by simp [goesOn], later.calledOff⟩

theorem map_fst_upToStop (fills : List (Template × Report)) :
    (upToStop receive (callsFrom 0 fills)).map Prod.fst =
      List.range (upToStop receive (callsFrom 0 fills)).length := by
  have counted : ∀ index, (callsFrom index fills).map Prod.fst =
      List.range' index (callsFrom index fills).length := by
    induction fills with
    | nil => exact fun index => rfl
    | cons fill rest ih =>
        intro index
        rw [callsFrom_cons, List.map_cons, ih, List.length_cons, List.range'_succ]
  rw [upToStop, List.map_take, counted, List.length_take, ← List.range_eq_range', List.take_range]

end Batch

namespace Template

variable {setup : Setup} {bound : Nat} {t : Template}

theorem fillEachFrom_follows (receive : Nat → Template → Reply) (active : setup.cancelled = false)
    {data : List Value} {fills : List (Template × Report)}
    (single : data.map (t.fill setup bound) = fills.map fun fill => some (.done fill.1 fill.2))
    (index : Nat) (reports : List Report) :
    ∃ batch, fillEachFrom setup bound receive t index data false reports = some batch ∧
      batch.Follows receive index reports.reverse fills := by
  have same : { setup with cancelled := false } = setup := by rw [← active]
  induction data generalizing fills index reports with
  | nil =>
      cases List.map_eq_nil_iff.1 single.symm
      exact ⟨_, rfl, Batch.follows_nil⟩
  | cons value rest ih =>
      obtain ⟨fill, others, rfl⟩ : ∃ fill others, fills = fill :: others := by
        cases fills with
        | nil => cases single
        | cons fill others => exact ⟨fill, others, rfl⟩
      have here : t.fill setup bound value = some (.done fill.1 fill.2) := (List.cons.inj single).1
      have later := (List.cons.inj single).2
      rw [fillEachFrom, if_neg Bool.false_ne_true, same, here]
      dsimp only [Attempt.done]
      cases accepted : (receive index fill.1).refusal with
      | some e => exact ⟨_, rfl, Batch.follows_of_refused accepted⟩
      | none =>
          cases cancels : (receive index fill.1).cancels with
          | false =>
              obtain ⟨batch, ran, follows⟩ := ih later (index + 1) (fill.2 :: reports)
              rw [List.reverse_cons] at follows
              refine ⟨_, ?_, follows.after accepted cancels⟩
              rw [Bool.or_false, ran, Option.map_some]
          | true =>
              cases rest with
              | nil =>
                  cases List.map_eq_nil_iff.1 later.symm
                  refine ⟨_, rfl, ?_⟩
                  rw [List.reverse_cons]
                  exact Batch.follows_of_last accepted
              | cons next values =>
                  have more : others ≠ [] := by
                    rintro rfl
                    cases later
                  exact ⟨_, rfl, Batch.follows_of_cancels accepted cancels more⟩

/-- Each copy is filled as the template is with its data alone, and the template is only read. The
copies are handed over in order, up to the first that is refused or at which the rest is called off.
All the reports are returned if no copy is refused and nothing is called off before the last one;
else the refusal is returned, or that the fill was called off. A receiver may keep a state: the calls
before an index are the same in every run, so that its answer is a function of the index and the
copy. -/
theorem fillEach_delivers (setup : Setup) (receive : Nat → Template → Reply) (t : Template)
    (data : List Value) (active : setup.cancelled = false)
    (ends : ∀ value ∈ data, ∃ bound outcome, t.fill setup bound value = some outcome) :
    ∃ (fills : List (Template × Report)) (enough : Nat), ∀ bound ≥ enough,
      data.map (t.fill setup bound) = fills.map (fun fill => some (.done fill.1 fill.2)) ∧
      ∃ batch, t.fillEach setup bound receive data = some batch ∧
        batch.delivered =
          Batch.upToStop receive (fills.mapIdx fun index fill => (index, fill.1)) ∧
        batch.delivered.map Prod.fst = List.range batch.delivered.length ∧
        (batch.result = .ok (fills.map Prod.snd) ↔
          ∀ call ∈ batch.delivered, (receive call.1 call.2).refusal = none ∧
            ((receive call.1 call.2).cancels = true → call.1 + 1 = data.length)) ∧
        (∀ call ∈ batch.delivered, ∀ e, (receive call.1 call.2).refusal = some e →
          batch.result = .error e) ∧
        ∀ call ∈ batch.delivered, (receive call.1 call.2).refusal = none →
          (receive call.1 call.2).cancels = true → call.1 + 1 < data.length →
          batch.result = .error .cancelled := by
  obtain ⟨fills, enough, single⟩ := exists_fills active ends
  refine ⟨fills, enough, fun bound large => ⟨single bound large, ?_⟩⟩
  obtain ⟨batch, ran, follows⟩ := fillEachFrom_follows receive active (single bound large) 0 []
  have count : data.length = 0 + fills.length := by
    rw [Nat.zero_add, ← List.length_map (t.fill setup bound), single bound large, List.length_map]
  have calls : (fills.mapIdx fun index fill => (index, fill.1)) = Batch.callsFrom 0 fills := by
    simp only [Batch.callsFrom, Nat.zero_add]
  rw [count, calls, fillEach, active]
  refine ⟨batch, ran, follows.delivered, ?_, follows.completes, follows.refused,
    follows.calledOff⟩
  rw [follows.delivered, Batch.map_fst_upToStop]

/-- A receiver that wants two copies. -/
def wantsTwo (index : Nat) (_ : Template) : Reply := { cancels := index == 1 }

/-- Names for three cards. -/
def names : List Value := ["Ann", "Bob", "Eve"].map fun name => .mapping [("Name", .text name)]

def card (text : String) : Template := document { body := { paragraphs := [⟨[{ text }]⟩] } }

/-- The second card is handed over and the third is not filled. -/
theorem card_delivers :
    ({} : Setup).cancelled = false ∧
    (∀ value ∈ names, ∃ bound outcome, (card "{Name}").fill {} bound value = some outcome) ∧
    ∃ bound batch, (card "{Name}").fillEach {} bound wantsTwo names = some batch ∧
      batch.delivered = [(0, card "Ann"), (1, card "Bob")] ∧ batch.result = .error .cancelled := by
  have ends : ∀ value ∈ names, ∃ bound outcome,
      (card "{Name}").fill {} bound value = some outcome := fun value _ => ⟨0, _, rfl⟩
  obtain ⟨fills, enough, filled⟩ := fillEach_delivers {} wantsTwo (card "{Name}") names rfl ends
  obtain ⟨single, batch, ran, delivered, -, -, -, calledOff⟩ := filled enough (Nat.le_refl _)
  let cards : List (Template × Report) := ["Ann", "Bob", "Eve"].map fun name =>
    (card name, { scalarsFilled := 1 })
  have same : cards.map (fun fill => some (Attempt.done fill.1 fill.2)) =
      fills.map fun fill => some (.done fill.1 fill.2) := by
    rw [← single]
    cbv
  obtain rfl : cards = fills := by
    refine List.map_injective_iff.2 ?_ same
    rintro ⟨copy, report⟩ ⟨copy', report'⟩ equal
    cases equal
    rfl
  refine ⟨rfl, ends, enough, batch, ran, delivered, ?_⟩
  exact calledOff (1, card "Bob") (by rw [delivered]; decide) rfl rfl (by decide)

end Template

end Stencil
