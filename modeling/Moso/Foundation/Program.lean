import Mathlib.Init

/-!
# Programs that ask commands

A program either has a result, or asks a command and goes on with the answer. It can be run one
command at a time, with anything happening in between.

A discipline says which commands a program may ask, which answers it may count on, and what the
program has done so far, as a ghost state that commands and answers move. That a program obeys a
discipline is a fact about the program alone, proved along its text; what then holds of programs
that run side by side is proved along the commands.
-/

universe u v w x

/-- A program over the commands `C`, whose answers have the types `R`. -/
inductive Program (C : Type u) (R : C → Type v) (α : Type w) where
  | done (a : α)
  | ask (c : C) (next : R c → Program C R α)

namespace Program

variable {C : Type u} {R : C → Type v} {α β : Type w} {σ : Type x}

def bind : Program C R α → (α → Program C R β) → Program C R β
  | done a, f => f a
  | ask c next, f => ask c fun r => (next r).bind f

instance : Monad (Program C R) where
  pure := done
  bind := bind

/-- The program that asks one command and returns its answer. -/
def command {R : C → Type w} (c : C) : Program C R (R c) := ask c done

/-- The command a program asks next. -/
def asked : Program C R α → Option C
  | done _ => none
  | ask c _ => some c

/-- What a program may do, and what it may count on. -/
structure Discipline (C : Type u) (R : C → Type v) (σ : Type x) where
  /-- The commands that may be asked. -/
  allowed : σ → C → Prop
  /-- The answers that are possible. -/
  expected : σ → (c : C) → R c → Prop
  /-- The ghost state after an answer. -/
  next : σ → (c : C) → R c → σ

/-- From the ghost state on, the program asks only what the discipline allows, whatever the
expected answers, and ends in a state and with a result that satisfy `Q`. -/
def Obeys (D : Discipline C R σ) (Q : σ → α → Prop) : σ → Program C R α → Prop
  | s, done a => Q s a
  | s, ask c next => D.allowed s c ∧ ∀ r, D.expected s c r → Obeys D Q (D.next s c r) (next r)

variable {D : Discipline C R σ} {Q : σ → α → Prop} {Q' : σ → β → Prop} {s : σ}

@[simp] lemma obeys_pure (a : α) : Obeys D Q s (pure a) ↔ Q s a := Iff.rfl

/-- One command, and the rest of the program. -/
lemma obeys_command {R : C → Type w} {D : Discipline C R σ} {Q : σ → α → Prop} {c : C}
    {f : R c → Program C R α} :
    Obeys D Q s (command c >>= f) ↔
      D.allowed s c ∧ ∀ r, D.expected s c r → Obeys D Q (D.next s c r) (f r) := Iff.rfl

/-- The rule for two programs in a row. -/
theorem Obeys.bind {p : Program C R α} {f : α → Program C R β} (hp : Obeys D Q s p)
    (hf : ∀ s a, Q s a → Obeys D Q' s (f a)) : Obeys D Q' s (p >>= f) := by
  induction p generalizing s with
  | done a => exact hf s a hp
  | ask c next ih =>
    obtain ⟨hallowed, hnext⟩ := hp
    exact ⟨hallowed, fun r hr => ih r (hnext r hr)⟩

theorem Obeys.mono {Q' : σ → α → Prop} {p : Program C R α} (hp : Obeys D Q s p)
    (hQ : ∀ s a, Q s a → Q' s a) : Obeys D Q' s p := by
  induction p generalizing s with
  | done a => exact hQ s a hp
  | ask c next ih =>
    obtain ⟨hallowed, hnext⟩ := hp
    exact ⟨hallowed, fun r hr => ih r (hnext r hr)⟩

/-! ### Programs over some of the commands -/

section

universe u'

variable {C' : Type u'} {R : C' → Type v} (f : C → C')

/-- A program whose commands are among those of a larger language. -/
def embed : Program C (fun c => R (f c)) α → Program C' R α
  | done a => done a
  | ask c next => ask (f c) fun r => (next r).embed

/-- What a discipline says of some of the commands. -/
def Discipline.comap (D : Discipline C' R σ) : Discipline C (fun c => R (f c)) σ where
  allowed s c := D.allowed s (f c)
  expected s c r := D.expected s (f c) r
  next s c r := D.next s (f c) r

variable {f} {D : Discipline C' R σ}

lemma obeys_embed {p : Program C (fun c => R (f c)) α} :
    Obeys D Q s (p.embed f) ↔ Obeys (D.comap f) Q s p := by
  induction p generalizing s with
  | done a => exact Iff.rfl
  | ask c next ih =>
    exact and_congr_right fun _ => forall_congr' fun r => imp_congr_right fun _ => ih r

end

/-! ### Programs that run alone -/

section

variable {τ : Type*}

/-- Run a program by itself, with an answer to every command. -/
def interpret (handle : (c : C) → τ → R c × τ) : Program C R α → τ → α × τ
  | done a, t => (a, t)
  | ask c next, t => (next (handle c t).1).interpret handle (handle c t).2

variable {handle : (c : C) → τ → R c × τ} {t t' : τ}

@[simp] lemma interpret_pure (a : α) : (pure a : Program C R α).interpret handle t = (a, t) := rfl

/-- What every command does to the state, up to a preorder, a program does. -/
lemma interpret_related {r : τ → τ → Prop} (hrefl : ∀ t, r t t)
    (htrans : ∀ t t' t'', r t t' → r t' t'' → r t t'') (hstep : ∀ c t, r t (handle c t).2)
    (p : Program C R α) (t : τ) : r t (p.interpret handle t).2 := by
  induction p generalizing t with
  | done a => exact hrefl t
  | ask c next ih => exact htrans _ _ _ (hstep c t) (ih _ _)

/-- Two programs in a row. -/
lemma interpret_bind (p : Program C R α) (f : α → Program C R β) :
    (p >>= f).interpret handle t =
      (f (p.interpret handle t).1).interpret handle (p.interpret handle t).2 := by
  induction p generalizing t with
  | done a => rfl
  | ask c next ih => exact ih _

/-- A program in a larger language does what the commands it comes from do. -/
lemma interpret_embed {C' : Type*} {R : C' → Type*} {f : C → C'} {handle : (c : C') → τ → R c × τ}
    {p : Program C (fun c => R (f c)) α} :
    (p.embed f).interpret handle t = p.interpret (fun c => handle (f c)) t := by
  induction p generalizing t with
  | done a => rfl
  | ask c next ih => exact ih _

end

/-! ### Programs that can fail

The answers are results or errors, and a program that does not handle an error ends with it. -/

section

variable {E α' β' : Type w} {A : C → Type w}

/-- Ask a command and go on with its result. -/
def call (c : C) : ExceptT E (Program C fun c => Except E (A c)) (A c) :=
  ExceptT.mk (ask c done)

/-- Ask a command and go on whatever comes of it. -/
def ignore (c : C) : ExceptT E (Program C fun c => Except E (A c)) PUnit :=
  ExceptT.mk (ask c fun _ => done (.ok ⟨⟩))

/-- Go on with a result that is there already. -/
def settle {R : C → Type v} (r : Except E α') : ExceptT E (Program C R) α' :=
  ExceptT.mk (done r)

/-- Run a program, and go on with its result or its error. -/
def attempt {R : C → Type v} (p : ExceptT E (Program C R) α') :
    ExceptT E (Program C R) (Except E α') :=
  ExceptT.mk (p.run >>= fun r => done (.ok r))

section

variable {D : Discipline C (fun c => Except E (A c)) σ} {Q : σ → Except E α' → Prop}
  {Q' : σ → Except E β' → Prop} {c : C}

lemma obeys_call {f : A c → ExceptT E (Program C fun c => Except E (A c)) α'} :
    Obeys D Q s (call c >>= f).run ↔ D.allowed s c ∧
      (∀ a, D.expected s c (.ok a) → Obeys D Q (D.next s c (.ok a)) (f a).run) ∧
      ∀ e, D.expected s c (.error e) → Q (D.next s c (.error e)) (.error e) := by
  constructor
  · rintro ⟨hallowed, hnext⟩
    exact ⟨hallowed, fun a ha => hnext (.ok a) ha, fun e he => hnext (.error e) he⟩
  · rintro ⟨hallowed, hok, herror⟩
    refine ⟨hallowed, fun r hr => ?_⟩
    cases r with
    | ok a => exact hok a hr
    | error e => exact herror e hr

/-- A command at the end of a program. -/
lemma obeys_last {Q : σ → Except E (A c) → Prop} :
    Obeys D Q s (call c).run ↔ D.allowed s c ∧
      (∀ a, D.expected s c (.ok a) → Q (D.next s c (.ok a)) (.ok a)) ∧
      ∀ e, D.expected s c (.error e) → Q (D.next s c (.error e)) (.error e) := by
  constructor
  · rintro ⟨hallowed, hnext⟩
    exact ⟨hallowed, fun a ha => hnext (.ok a) ha, fun e he => hnext (.error e) he⟩
  · rintro ⟨hallowed, hok, herror⟩
    refine ⟨hallowed, fun r hr => ?_⟩
    cases r with
    | ok a => exact hok a hr
    | error e => exact herror e hr

lemma obeys_settle {r : Except E α'}
    {f : α' → ExceptT E (Program C fun c => Except E (A c)) β'} :
    Obeys D Q' s (settle r >>= f).run ↔
      (∀ a, r = .ok a → Obeys D Q' s (f a).run) ∧ ∀ e, r = .error e → Q' s (.error e) := by
  cases r with
  | ok a => exact ⟨fun h => ⟨fun _ ha => Except.ok.inj ha ▸ h, nofun⟩, fun h => h.1 a rfl⟩
  | error e => exact ⟨fun h => ⟨nofun, fun _ he => Except.error.inj he ▸ h⟩, fun h => h.2 e rfl⟩

lemma obeys_ignore {f : PUnit → ExceptT E (Program C fun c => Except E (A c)) α'} :
    Obeys D Q s (ignore c >>= f).run ↔ D.allowed s c ∧
      ∀ r, D.expected s c r → Obeys D Q (D.next s c r) (f ⟨⟩).run := Iff.rfl

/-- The rule for two programs in a row, the first of which may fail. -/
theorem Obeys.bindExcept {p : ExceptT E (Program C fun c => Except E (A c)) α'}
    {f : α' → ExceptT E (Program C fun c => Except E (A c)) β'} (hp : Obeys D Q s p.run)
    (hok : ∀ s a, Q s (.ok a) → Obeys D Q' s (f a).run)
    (herror : ∀ s e, Q s (.error e) → Q' s (.error e)) : Obeys D Q' s (p >>= f).run := by
  apply hp.bind
  intro s r hr
  cases r with
  | ok a => exact hok s a hr
  | error e => exact herror s e hr

/-- A program whose error is handled. -/
theorem Obeys.bindAttempt {p : ExceptT E (Program C fun c => Except E (A c)) α'}
    {f : Except E α' → ExceptT E (Program C fun c => Except E (A c)) β'} (hp : Obeys D Q s p.run)
    (hf : ∀ s r, Q s r → Obeys D Q' s (f r).run) : Obeys D Q' s (attempt p >>= f).run := by
  have hattempt : Obeys D (fun s r => ∃ r', r = .ok r' ∧ Q s r') s (attempt p).run :=
    hp.bind fun s r hr => ⟨r, rfl, hr⟩
  apply hattempt.bind
  rintro s _ ⟨r, rfl, hr⟩
  exact hf s r hr

/-- A program whose result may be an error, as a value to go on with. -/
theorem Obeys.bindLift {Q : σ → α' → Prop} {p : Program C (fun c => Except E (A c)) α'}
    {f : α' → ExceptT E (Program C fun c => Except E (A c)) β'} (hp : Obeys D Q s p)
    (hf : ∀ s a, Q s a → Obeys D Q' s (f a).run) : Obeys D Q' s (ExceptT.lift p >>= f).run := by
  have hmap : Obeys D (fun s (r : Except E α') => ∃ a, r = .ok a ∧ Q s a) s
      (p >>= fun a => done (.ok a)) := hp.bind fun s a ha => ⟨a, rfl, ha⟩
  have hlift : Obeys D (fun s (r : Except E α') => ∃ a, r = .ok a ∧ Q s a) s
      (ExceptT.lift p).run := hmap
  apply hlift.bind
  rintro s _ ⟨a, rfl, ha⟩
  exact hf s a ha

end

section

variable {τ : Type*} {handle : (c : C) → τ → Except E (A c) × τ} {t t' : τ} {c : C}

lemma interpret_bind_ok {R : C → Type v} {handle : (c : C) → τ → R c × τ} {t t' : τ}
    {p : ExceptT E (Program C R) α'} {f : α' → ExceptT E (Program C R) β'} {a : α'}
    (h : p.run.interpret handle t = (.ok a, t')) :
    (p >>= f).run.interpret handle t = (f a).run.interpret handle t' := by
  have hbind : (p >>= f).run = p.run >>= ExceptT.bindCont f := rfl
  rw [hbind, interpret_bind, h]
  rfl

lemma interpret_bind_error {R : C → Type v} {handle : (c : C) → τ → R c × τ} {t t' : τ}
    {p : ExceptT E (Program C R) α'} {f : α' → ExceptT E (Program C R) β'} {e : E}
    (h : p.run.interpret handle t = (.error e, t')) :
    (p >>= f).run.interpret handle t = (.error e, t') := by
  have hbind : (p >>= f).run = p.run >>= ExceptT.bindCont f := rfl
  rw [hbind, interpret_bind, h]
  rfl

/-- A program in two parts succeeds only if the first does. -/
lemma interpret_bind_eq_ok {R : C → Type v} {handle : (c : C) → τ → R c × τ} {t t'' : τ}
    {p : ExceptT E (Program C R) α'} {f : α' → ExceptT E (Program C R) β'} {b : β'}
    (h : (p >>= f).run.interpret handle t = (.ok b, t'')) :
    ∃ a t', p.run.interpret handle t = (.ok a, t') ∧
      (f a).run.interpret handle t' = (.ok b, t'') := by
  cases hp : p.run.interpret handle t with
  | mk result t' =>
    cases result with
    | error e =>
      rw [interpret_bind_error hp] at h
      cases h
    | ok a =>
      rw [interpret_bind_ok hp] at h
      exact ⟨a, t', rfl, h⟩

lemma interpret_settle_eq_ok {R : C → Type v} {handle : (c : C) → τ → R c × τ} {t t' : τ}
    {r : Except E α'} {f : α' → ExceptT E (Program C R) β'} {b : β'}
    (h : (settle r >>= f).run.interpret handle t = (.ok b, t')) :
    ∃ a, r = .ok a ∧ (f a).run.interpret handle t = (.ok b, t') := by
  cases r with
  | error e => cases congrArg Prod.fst h
  | ok a => exact ⟨a, rfl, h⟩

lemma interpret_call : (call c).run.interpret handle t = handle c t := rfl

lemma interpret_call_ok {f : A c → ExceptT E (Program C fun c => Except E (A c)) α'} {a : A c}
    (h : handle c t = (.ok a, t')) :
    (call c >>= f).run.interpret handle t = (f a).run.interpret handle t' :=
  interpret_bind_ok ((interpret_call).trans h)

lemma interpret_call_error {f : A c → ExceptT E (Program C fun c => Except E (A c)) α'} {e : E}
    (h : handle c t = (.error e, t')) :
    (call c >>= f).run.interpret handle t = (.error e, t') :=
  interpret_bind_error ((interpret_call).trans h)

lemma interpret_attempt {R : C → Type v} {handle : (c : C) → τ → R c × τ} {t : τ}
    (p : ExceptT E (Program C R) α') (f : Except E α' → ExceptT E (Program C R) β') :
    (attempt p >>= f).run.interpret handle t =
      (f (p.run.interpret handle t).1).run.interpret handle (p.run.interpret handle t).2 := by
  have hattempt : (attempt p >>= f).run =
      (p.run >>= fun r => done (.ok r)) >>= ExceptT.bindCont f := rfl
  rw [hattempt, interpret_bind, interpret_bind]
  rfl

/-- A program whose result may be an error, as a value to go on with. -/
lemma interpret_lift {R : C → Type v} {handle : (c : C) → τ → R c × τ} {t : τ}
    (p : Program C R α') (f : α' → ExceptT E (Program C R) β') :
    (ExceptT.lift p >>= f).run.interpret handle t =
      (f (p.interpret handle t).1).run.interpret handle (p.interpret handle t).2 := by
  have hlift : (ExceptT.lift p >>= f).run = (Except.ok <$> p) >>= ExceptT.bindCont f := rfl
  have hmap : (Except.ok <$> p : Program C R (Except E α')) = p >>= fun a => done (.ok a) := rfl
  rw [hlift, hmap, interpret_bind, interpret_bind]
  rfl

lemma interpret_ignore {f : PUnit → ExceptT E (Program C fun c => Except E (A c)) α'} :
    (ignore c >>= f).run.interpret handle t = (f ⟨⟩).run.interpret handle (handle c t).2 := rfl

end

end

end Program
