import EmojiCatalog.Proofs.Catalog.Built
import EmojiCatalog.Proofs.Processor.Calls
import EmojiCatalog.Proofs.Run.Reach
/-!
What a consumer gets out of a run.

The answers to a consumer that calls for the next record, whatever the producer and the token do in
between, are the records of the first entries, then at most one cancellation, then the end; and the
end without a cancellation only after all records.

`Processor.streamAll` is such a consumer, with all producers going on whenever it has to wait.
`Streams` says that the run which it uses up is in a history of that kind, so every call is answered
(`Tracks.next`).  And the number of calls that `Processor.drain` allows for is enough, because no
more answers than one for each entry and one fault can come before the end.
-/

namespace EmojiCatalog

open Run (Trace Act Answered Sound answersOf collected)

variable {α : Type}

namespace Processor

variable {c : Catalog} {config : Config} {token : Token}
variable {p q : Processor α} {i j : Nat} {t : Trace α}

/-! ### Histories of a run that is used up -/

/-- The run of the given number has a history in which its consumer only called for the next
record, and the payload function is that of the processor. -/
structure Streams (c : Catalog) (config : Config) (token : Token) (p : Processor α) (i : Nat)
    (t : Trace α) : Prop where
  mirrors : Mirrors p i t
  leads : Trace.Leads Act.IsStreaming p.payload.Gives (Trace.start c config token) t

theorem Streams.exists_sound (h : Streams c config token p i t) :
    ∃ make, (∀ n, p.payload.Gives (make n)) ∧ Sound make config.producerName c.entries t ∧
      Answered t := by
  obtain ⟨make, acts, hmake, hacts, rfl⟩ := h.leads
  have hstart := Sound.start make c config token
  exact ⟨make, hmake, hstart.after acts, (Answered.start c config token).after hstart hacts⟩

theorem Streams.capacity_pos (h : Streams c config token p i t) : 0 < t.run.capacity := by
  have hcapacity : t.run.capacity = config.capacity := congrArg (·.2.2.1) h.leads.settings_eq
  rw [hcapacity]
  exact config.capacity_pos

theorem tracks_streams : Tracks (fun p t => Streams (α := α) c config token p i t) i where
  mirrors h := h.mirrors
  capacity_pos h := h.capacity_pos
  answered h := by
    obtain ⟨make, -, -, hanswered⟩ := h.exists_sound
    exact hanswered
  stepRun {p q t j} h hq := by
    obtain ⟨-, -, -, -, -, hsettings, -, -⟩ := exists_of_stepRun hq
    have hpayload : q.payload = p.payload := congrArg (·.2.2.1) hsettings
    refine ⟨h.mirrors.stepRun hq, ?_⟩
    rw [hpayload]
    apply Trace.Leads.mark _ p.gives_makeNow (.inr (.inr rfl))
    split
    · exact h.leads.step p.gives_makeNow (.inl rfl)
    · exact h.leads
  served {p t result r} h hasks := by
    obtain ⟨n, hn⟩ := hasks
    have hsettings : (t.served (.ofAnswer result, r)).run.settings = t.run.settings := by
      rw [← hn]
      exact Trace.settings_after _ t _
    refine ⟨h.mirrors.set (u := t.served (.ofAnswer result, r)) rfl hsettings, ?_⟩
    rw [← hn]
    exact h.leads.after p.gives_makeNow fun a ha => Run.isStreaming_of_mem_asks ha

theorem Streams.takeWithin (h : Streams c config token p i t) (hp : t.run.phase = .idle) (n : Nat) :
    ∃ u ended, Streams c config token (takeWithin n p i).2 i u ∧
      u.answers = t.answers
        ++ ((takeWithin n p i).1.map some ++ if ended then [none] else []) ∧
      (ended = false → (takeWithin n p i).1.length = n) ∧
      (takeWithin n p i).2.settings = p.settings := by
  induction n generalizing p t with
  | zero => exact ⟨t, false, h, (List.append_nil _).symm, fun _ => rfl, rfl⟩
  | succ n ih =>
    obtain ⟨u, hu, hidle, hanswers, hsettings⟩ := tracks_streams.next h hp
    unfold Processor.takeWithin
    rcases hnext : p.next i with ⟨- | a, q⟩
    · rw [hnext] at hu hanswers hsettings
      exact ⟨u, true, hu, hanswers, nofun, hsettings⟩
    · rw [hnext] at hu hanswers hsettings
      obtain ⟨v, ended, hv, hanswers', hlength, hsettings'⟩ := ih hu hidle
      refine ⟨v, ended, hv, ?_, ?_, hsettings'.trans hsettings⟩
      · rw [hanswers', hanswers, List.append_assoc]
        rfl
      · intro hended
        exact congrArg (· + 1) (hlength hended)

/-! ### Using up a run -/

/-- A run that was just started has a history, in which its token may be cancelled already. -/
theorem streams_startRun (p : Processor α) (parent : Token) (cancelled : Bool) :
    let p₁ := p.startRun parent
    let p₂ := if cancelled then p₁.cancel p.tokens.fresh else p₁
    let t := Trace.start p.catalog p.config p.tokens.fresh
    Streams p.catalog p.config p.tokens.fresh p₂ p.runs.length (t.mark (p₂.isCancelled t.run)) ∧
      p₂.settings = p.settings := by
  intro p₁ p₂ t
  have hrun : p₂.runs[p.runs.length]? = some t.run := by
    have hruns : p₂.runs = p.runs ++ [t.run] := by
      show (if cancelled then p₁.cancel p.tokens.fresh else p₁).runs = _
      split <;> rfl
    rw [hruns, List.getElem?_append_right (Nat.le_refl _), Nat.sub_self]
    rfl
  have hsettings : p₂.settings = p.settings := by
    show (if cancelled then p₁.cancel p.tokens.fresh else p₁).settings = p.settings
    split <;> rfl
  refine ⟨⟨.mark hrun nofun, ?_⟩, hsettings⟩
  exact (Trace.Leads.refl p₂.gives_makeNow t).mark p₂.gives_makeNow (.inr (.inr rfl)) _

theorem collected_map_some (answers : List (Except Fault (Record α))) :
    collected (answers.map some ++ [none]) = some (gather answers) := by
  induction answers with
  | nil => rfl
  | cons answer answers ih =>
    cases answer with
    | error f => rfl
    | ok x =>
      show (collected (answers.map some ++ [none])).map (Except.map (x :: ·)) = _
      rw [ih]
      rfl

/-- Using up a new run gives all records of the catalog, or the cancellation of the run's token. -/
theorem streamAll_spec (p : Processor α) (parent : Token) (cancelled : Bool) :
    (∀ v, (p.streamAll parent cancelled).1 = .ok v → ∃ make, (∀ n, p.payload.Gives (make n)) ∧
      v = recordsOf make p.config.producerName p.catalog.entries) ∧
    ∀ f, (p.streamAll parent cancelled).1 = .error f → f = .cancelled ∧
      (p.streamAll parent cancelled).2.tokens.isCancelled p.tokens.fresh = true := by
  obtain ⟨hstart, hsettings⟩ := streams_startRun p parent cancelled
  unfold streamAll
  dsimp only at hstart hsettings ⊢
  generalize (if cancelled then (p.startRun parent).cancel p.tokens.fresh
    else p.startRun parent) = p₂ at hstart hsettings ⊢
  unfold collect drain
  have hcatalog : p₂.catalog = p.catalog := congrArg (·.1) hsettings
  rw [hcatalog]
  obtain ⟨u, ended, hu, hanswers, hlength, hsettings'⟩ :=
    hstart.takeWithin rfl (p.catalog.entries.length + 2)
  generalize takeWithin (p.catalog.entries.length + 2) p₂ p.runs.length = out
    at hu hanswers hlength hsettings'
  obtain ⟨make, hmake, hsound, hanswered⟩ := hu.exists_sound
  have hanswers' : u.answers = out.1.map some ++ if ended then [none] else [] := hanswers
  cases ended with
  | false =>
    -- more answers than there can be before the end
    have hlen : u.answers.length = p.catalog.entries.length + 2 := by
      rw [hanswers', List.length_append, List.length_map, hlength rfl]
      rfl
    have hle := hanswered.length_answers_le hsound (by simp [hanswers'])
    omega
  | true =>
    have hcollected : collected u.answers = some (gather out.1) := by
      rw [hanswers']
      exact collected_map_some out.1
    obtain ⟨hok, herror⟩ := hanswered.of_collected hsound
    have hpayload : out.2.payload = p.payload :=
      (congrArg (·.2.2.1) hsettings').trans (congrArg (·.2.2.1) hsettings)
    constructor
    · intro v hv
      refine ⟨make, hpayload ▸ hmake, hok v ?_⟩
      rw [hcollected]
      exact congrArg some hv
    · intro f hf
      obtain ⟨hcancelled, hmark⟩ := herror f (hcollected.trans (congrArg some hf))
      refine ⟨hcancelled, ?_⟩
      have htoken : u.run.token = p.tokens.fresh := congrArg (·.1) hu.leads.settings_eq
      rw [hu.mirrors.cancelled_eq, isCancelled, htoken] at hmark
      exact hmark

end Processor

/-- **A calling consumer gets the records of the catalog**, in order and without loss, whatever the
producer and the token do in between.

* The answers are the records of the first entries, then at most one cancellation, then ends; a
  cancellation only if the token was cancelled, an end without one only after all records.  Once the
  run is over every later call is answered with the end.
* So what is collected, if no fault is, are all records; and the only fault is the cancellation of
  the run's token.
* This holds of `Processor.streamAll` in any state of a processor. -/
theorem answers_are_records {rows : List Row} {c : Catalog} (hc : Catalog.build rows = .ok c) :
    (∀ (config : Config) (token : Token) (make : Nat → Entry → α × Stamp) (acts : List Act),
      (∀ a ∈ acts, a.IsStreaming) →
      let t := (Trace.start c config token).after make acts
      let records := recordsOf make config.producerName c.entries
      (∃ k failed ends, k ≤ c.size ∧ t.answers = answersOf (records.take k) failed ends ∧
        (failed = true → t.cancelled = true) ∧ (0 < ends → failed = true ∨ k = c.size) ∧
        (failed = true ∨ 0 < ends → ∀ later, (t.after make later).answers
          = t.answers ++ List.replicate (later.count (.serve .ask)) none)) ∧
      (∀ v, collected t.answers = some (.ok v) → v = records) ∧
      (∀ f, collected t.answers = some (.error f) → f = .cancelled ∧ t.cancelled = true)) ∧
    ∀ (p : Processor α) (parent : Token) (cancelled : Bool), p.catalog = c →
      let out := p.streamAll parent cancelled
      (∀ v, out.1 = .ok v → ∃ make, (∀ n, p.payload.Gives (make n)) ∧
        v = recordsOf make p.config.producerName c.entries) ∧
      (∀ f, out.1 = .error f →
        f = .cancelled ∧ out.2.tokens.isCancelled p.tokens.fresh = true) := by
  constructor
  · intro config token make acts hacts t records
    have hstart := Sound.start make c config token
    have hsound : Sound make config.producerName c.entries t := hstart.after acts
    have hanswered : Answered t := (Answered.start c config token).after hstart hacts
    refine ⟨?_, hanswered.of_collected hsound⟩
    rw [Catalog.size_eq_of_build hc]
    obtain ⟨k, failed, ends, hk, ha, hfailed, hends, hover⟩ := hanswered.exists_answersOf hsound
    refine ⟨k, failed, ends, hk, ha, hfailed, hends, ?_⟩
    intro h later
    obtain ⟨hp, hd⟩ := hover h
    exact Run.answers_after_of_over hp hd later
  · rintro p parent cancelled rfl
    exact p.streamAll_spec parent cancelled

/-- A payload function that tells its calls apart. -/
def numberedItem (n : Nat) (e : Entry) : (Nat × String) × Stamp := ((n, e.item), default)

/-- The acts of a run whose producer and consumer take turns. -/
def turns : List Act := (List.replicate 16 [.produce, .serve .ask]).flatten

/-- A processor whose runs hold one record. -/
def Processor.twoFaces : Processor String :=
  .ofCatalog Catalog.twoFaces { batchSize := 0 } .subcategory

theorem answers_are_records_twoFaces :
    (∃ v, collected ((Trace.start Catalog.twoFaces { batchSize := 0 } Tokens.root).after
          numberedItem turns).answers = some (.ok v) ∧
        v = recordsOf numberedItem "StreamPipeline" Catalog.twoFaces.entries) ∧
      ∃ v, (Processor.twoFaces.streamAll Tokens.root false).1 = .ok v ∧ v.length = 2 := by
  constructor
  · have h := (answers_are_records Catalog.build_twoFacesRows).1 { batchSize := 0 } Tokens.root
      numberedItem turns (by decide)
    exact ⟨_, rfl, h.2.1 _ rfl⟩
  · obtain ⟨hok, herror⟩ := (answers_are_records Catalog.build_twoFacesRows).2
      Processor.twoFaces Tokens.root false rfl
    cases hout : (Processor.twoFaces.streamAll Tokens.root false).1 with
    | error f => exact absurd (herror f hout).2 (by decide)
    | ok v =>
      obtain ⟨make, -, hv⟩ := hok v hout
      refine ⟨v, rfl, ?_⟩
      rw [hv, length_recordsOf]
      rfl

end EmojiCatalog
