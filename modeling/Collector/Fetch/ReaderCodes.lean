import Collector.Fetch.BodyBounds
import Collector.Fetch.Classify

/-!
The codes that reading a body ends with. Apart from what the network and the watchdog raise
themselves, a body over its limits or out of its format is refused with a code for quarantine.
-/

namespace Collector.Fetch
open Collector.Lib Collector.Persistence

/-- An exception of the reader, or one that came out of the network or the watchdog. -/
def Known (past : List BodyExchange) (e : BodyRaise) : Prop :=
  (∀ code message, e = .bodyLimit code message → code ∈ quarantineErrors) ∨
    (⟨.chunk, .error e⟩ : BodyExchange) ∈ past ∨ (⟨.onChunk, .error e⟩ : BodyExchange) ∈ past

/-- Whatever the answers, an exception of the action is known. -/
def RaisesKnown {β : Type} (p : BodyAct β) : Prop :=
  ∀ past s, p.Safe (fun _ _ => True) (fun past r _ => ∀ e, r = .error e → Known past e) past s

section Steps
variable {β γ : Type} {p : BodyAct β} {f : β → BodyAct γ}

theorem RaisesKnown.bind (first : RaisesKnown p) (second : ∀ b, RaisesKnown (f b)) :
    RaisesKnown (p >>= f) := by
  intro past s
  apply (first past s).andThen
  · intro past e s known other same
    exact known other (congrArg Except.error (Except.error.inj same))
  · intro past b s _
    exact second b past s

theorem raisesKnown_pure (b : β) : RaisesKnown (pure b) := by
  intro past s e raised
  cases raised

theorem raisesKnown_code {code : String} (message : String) (own : code ∈ quarantineErrors) :
    RaisesKnown (Act.raise (.bodyLimit code message) : BodyAct β) := by
  intro past s e raised
  cases raised
  left
  intro other text same
  cases same
  exact own

theorem raisesKnown_other {e : BodyRaise} (plain : ∀ code message, e ≠ .bodyLimit code message) :
    RaisesKnown (Act.raise e : BodyAct β) := by
  intro past s other raised
  cases raised
  exact .inl fun code message same => absurd same (plain code message)

theorem raisesKnown_ask {q : BodyQuestion} {f : BodyAnswer q → BodyAct β}
    (next : ∀ a, RaisesKnown (f a)) : RaisesKnown (Act.ask q >>= f) :=
  fun past s => ⟨trivial, fun a => next a (⟨q, a⟩ :: past) s⟩

theorem raisesKnown_get {f : BodyState → BodyAct β} (next : ∀ s, RaisesKnown (f s)) :
    RaisesKnown (Act.get >>= f) :=
  fun past s => next s past s

theorem raisesKnown_modify (change : BodyState → BodyState) :
    RaisesKnown (Act.modify change : BodyAct Unit) := by
  intro past s e raised
  cases raised

end Steps

section Reader
variable {emit : Bytes → BodyAct Unit} (emits : ∀ data, RaisesKnown (emit data))
include emits

theorem yieldSome_known (out : Bytes) : RaisesKnown (yieldSome emit out) := by
  unfold yieldSome
  split
  · exact raisesKnown_pure ()
  · exact emits out

theorem inflate_known (fuel : Nat) (object : ZlibObject) (wbits : Option Int) (data : Bytes) :
    RaisesKnown (inflate emit fuel object wbits data) := by
  induction fuel generalizing object data with
  | zero => exact raisesKnown_other nofun
  | succ fuel ih =>
    apply raisesKnown_ask
    intro answer
    cases answer with
    | error text => exact raisesKnown_code _ (by decide)
    | ok result =>
      refine (yieldSome_known emits _).bind fun _ => ?_
      split
      · exact (raisesKnown_modify _).bind fun _ => ih _ _
      · split
        · exact raisesKnown_pure ()
        · exact ih _ _

theorem drain_known (layer : Layer) (fuel : Nat) : RaisesKnown (drain emit layer fuel) := by
  induction fuel with
  | zero => exact raisesKnown_other nofun
  | succ fuel ih =>
    apply raisesKnown_ask
    intro accepts
    split
    · exact raisesKnown_pure ()
    · apply raisesKnown_ask
      intro answer
      cases answer with
      | error text => exact raisesKnown_code _ (by decide)
      | ok out => exact (yieldSome_known emits _).bind fun _ => ih

theorem feed_known (fuel : Nat) (layer : Layer) (data : Bytes) :
    RaisesKnown (feed fuel layer data emit) := by
  apply raisesKnown_get
  intro s
  split
  · exact inflate_known emits _ _ _ _
  · split
    · exact raisesKnown_pure ()
    · exact (raisesKnown_modify _).bind fun _ => inflate_known emits _ _ _ _
  · apply raisesKnown_ask
    intro answer
    cases answer with
    | error text => exact raisesKnown_code _ (by decide)
    | ok out => exact (yieldSome_known emits _).bind fun _ => drain_known emits _ _

theorem pipe_known (fuel : Nat) (chain : List Layer) (data : Bytes) :
    RaisesKnown (pipe fuel emit chain data) := by
  induction chain generalizing data with
  | nil => exact emits data
  | cons head rest ih => exact feed_known ih fuel head data

theorem finish_known (layer : Layer) : RaisesKnown (finish layer emit) := by
  apply raisesKnown_get
  intro s
  split
  · exact raisesKnown_code _ (by decide)
  · apply raisesKnown_ask
    intro answer
    cases answer with
    | error text => exact raisesKnown_other nofun
    | ok result =>
      refine (yieldSome_known emits _).bind fun _ => ?_
      split
      · exact raisesKnown_pure ()
      · exact raisesKnown_code _ (by decide)
  · apply raisesKnown_ask
    intro finished
    split
    · exact raisesKnown_pure ()
    · exact raisesKnown_code _ (by decide)

theorem finishAll_known (fuel : Nat) (chain : List Layer) :
    RaisesKnown (finishAll fuel emit chain) := by
  induction chain with
  | nil => exact raisesKnown_pure ()
  | cons head rest ih =>
    exact (finish_known (fun data => pipe_known emits fuel rest data) head).bind fun _ => ih

end Reader

section Body
variable (limits : BodyLimits)

theorem count_known (size : Nat) : RaisesKnown (count limits size) := by
  refine (raisesKnown_modify _).bind fun _ => raisesKnown_get fun s => ?_
  split
  · exact raisesKnown_code _ (by decide)
  · split
    · exact raisesKnown_code _ (by decide)
    · exact raisesKnown_pure ()

theorem consume_known (fuel : Nat) (entity : Bytes) : RaisesKnown (consume limits fuel entity) := by
  refine (raisesKnown_modify _).bind fun _ => raisesKnown_get fun s => ?_
  split
  · exact count_known limits _
  · exact pipe_known (fun _ => count_known limits _) _ _ _

theorem consumeEntity_known (fuel : Nat) (entity : Bytes) :
    RaisesKnown (consumeEntity limits fuel entity) := by
  refine raisesKnown_get fun s => ?_
  split
  · exact consume_known limits fuel entity
  · dsimp only
    split
    · exact raisesKnown_modify _
    · split
      · exact (raisesKnown_modify _).bind fun _ => consume_known limits fuel _
      · exact (raisesKnown_modify _).bind fun _ => consume_known limits fuel _

theorem takeChunk_known (fuel : Nat) (chain : List Layer) (chunk : Bytes) :
    RaisesKnown (takeChunk limits fuel chain chunk) := by
  refine (raisesKnown_modify _).bind fun _ => raisesKnown_get fun s => ?_
  split
  · exact raisesKnown_code _ (by decide)
  · exact pipe_known (consumeEntity_known limits fuel) _ _ _

theorem watch_known (onChunk : Bool) : RaisesKnown (watch onChunk) := by
  unfold watch
  split
  · intro past s
    refine ⟨trivial, fun answer => ?_⟩
    cases answer with
    | ok _ => exact fun e raised => nomatch raised
    | error e =>
      intro other raised
      cases raised
      exact .inr (.inr List.mem_cons_self)
  · exact raisesKnown_pure ()

theorem readChunks_known (onChunk : Bool) (chain : List Layer) (fuel left : Nat) :
    RaisesKnown (readChunks limits onChunk chain fuel left) := by
  induction left with
  | zero => exact raisesKnown_other nofun
  | succ left ih =>
    intro past s
    refine ⟨trivial, fun answer => ?_⟩
    rcases answer with e | _ | chunk
    · intro other raised
      cases raised
      exact .inr (.inl List.mem_cons_self)
    · exact fun e raised => nomatch raised
    · exact ((watch_known onChunk).bind fun _ =>
        (takeChunk_known limits fuel chain chunk).bind fun _ => ih) _ _

/-- **The codes of the reader.** Whatever zlib, brotli and the network do, `read_body` refuses a
body with a code for quarantine. -/
theorem readDecoded_known (onChunk : Bool) (fuel : Nat) (chain : List Layer) :
    RaisesKnown (readDecoded limits onChunk fuel chain) := by
  refine (readChunks_known limits onChunk chain fuel fuel).bind fun _ => ?_
  refine (finishAll_known (consumeEntity_known limits fuel) fuel chain).bind fun _ => ?_
  refine RaisesKnown.bind (raisesKnown_get fun s => ?_) fun _ => raisesKnown_get fun s => ?_
  · split
    · exact raisesKnown_pure ()
    · exact consume_known limits fuel _
  · exact (finishAll_known (fun _ => count_known limits _) fuel _).bind fun _ =>
      raisesKnown_get fun s => raisesKnown_pure _

end Body

end Collector.Fetch
