namespace Library.Outcome

/-! Rules for programs that either produce a result or stop with an error. -/

variable {Error α β : Type}

def Succeeds (program : Except Error α) : Prop := ∃ result, program = .ok result

theorem bind_eq_ok {program : Except Error α} {next : α → Except Error β} {result : β} :
    program.bind next = .ok result ↔ ∃ middle, program = .ok middle ∧ next middle = .ok result := by
  cases program <;> simp [Except.bind]

theorem succeeds_ok (result : α) : Succeeds (.ok result : Except Error α) := ⟨result, rfl⟩

theorem succeeds_bind (program : Except Error α) {next : α → Except Error β} :
    Succeeds (program.bind next) ↔ ∃ middle, program = .ok middle ∧ Succeeds (next middle) := by
  simp only [Succeeds, bind_eq_ok]
  constructor
  · intro held
    obtain ⟨result, middle, first, rest⟩ := held
    exact ⟨middle, first, result, rest⟩
  · intro held
    obtain ⟨middle, first, result, rest⟩ := held
    exact ⟨result, middle, first, rest⟩

/-- A program whose continuation never fails succeeds when it does. -/
theorem succeeds_bind_ok {program : Except Error α} {next : α → β} :
    Succeeds (program.bind fun middle => .ok (next middle)) ↔ Succeeds program := by
  rw [succeeds_bind]
  exact ⟨fun ⟨middle, first, _⟩ => ⟨middle, first⟩, fun ⟨middle, first⟩ => ⟨middle, first, succeeds_ok _⟩⟩

theorem map_eq_ok {program : Except Error α} {convert : α → β} {result : β} :
    program.map convert = .ok result ↔ ∃ middle, program = .ok middle ∧ convert middle = result := by
  cases program <;> simp [Except.map]

theorem succeeds_map {program : Except Error α} {convert : α → β} :
    Succeeds (program.map convert) ↔ Succeeds program := by
  cases program <;> simp [Except.map, Succeeds]

theorem mapError_bind {Other : Type} (convert : Error → Other) (program : Except Error α) (next : α → Except Error β) :
    (program.bind next).mapError convert = (program.mapError convert).bind fun middle =>
      (next middle).mapError convert := by
  cases program <;> rfl

/-! ## Catch clauses -/

/-- Whatever stops the program is among the errors that are caught. -/
def Contained (Catches : Error → Prop) (program : Except Error α) : Prop :=
  ∀ ⦃error⦄, program = .error error → Catches error

variable {Catches : Error → Prop}

theorem contained_ok (result : α) : Contained Catches (.ok result) := nofun

theorem contained_error {error : Error} : Contained Catches (.error error : Except Error α) ↔ Catches error :=
  ⟨fun contained => contained rfl, fun caught _ same => Except.error.inj same ▸ caught⟩

theorem contained_bind (program : Except Error α) {next : α → Except Error β} :
    Contained Catches (program.bind next) ↔
      Contained Catches program ∧ ∀ middle, program = .ok middle → Contained Catches (next middle) := by
  cases program with
  | error error =>
      simp only [Except.bind, contained_error, reduceCtorEq, false_implies, implies_true, and_true]
  | ok middle => simp only [Except.bind, contained_ok, Except.ok.injEq, forall_eq', true_and]

/-- Errors that no clause catches are contained only where there are none. -/
theorem contained_mapError {Fault : Type} {convert : Fault → Error} (uncaught : ∀ fault, ¬Catches (convert fault))
    (program : Except Fault α) : Contained Catches (program.mapError convert) ↔ Succeeds program := by
  cases program with
  | error fault =>
      refine iff_of_false (fun contained => uncaught fault (contained rfl)) (fun succeeds => ?_)
      obtain ⟨_, impossible⟩ := succeeds
      cases impossible
  | ok result => exact iff_of_true (contained_ok result) (succeeds_ok result)

end Library.Outcome
