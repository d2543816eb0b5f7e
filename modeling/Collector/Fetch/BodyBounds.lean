import Collector.Fetch.Decoding

/-!
How much of a body is in memory. What is stored is counted against the limit in two ways: as the
network's bytes when no decoder stands between the network and the store, and as decoded bytes when
the store is what was counted. A sitemap that is a gzip file inside a `Content-Encoding` is counted
in neither way: behind the decoders of the chain only the innermost bytes are counted, and the
stored file between the two may be of any size.
-/

namespace Collector.Fetch
open Collector.Lib Collector.Persistence

abbrev BodyExchange := Sigma BodyAnswer

/-- The chunks that the network gave. -/
def chunks : List BodyExchange → List Bytes
  | [] => []
  | ⟨.chunk, .ok (some chunk)⟩ :: past => chunk :: chunks past
  | _ :: past => chunks past

/-- A body is within the limit, and what `parts` holds is never more than one step above it:
`parts` only grows, and a run may end with an exception at each of its steps. -/
structure Bounded (limits : BodyLimits) (past : List BodyExchange) (outcome : Except BodyRaise Body)
    (s : BodyState) : Prop where
  returned : ∀ body, outcome = .ok body → (body.data.length : Int) ≤ limits.maxBytes
  held : (s.held : Int) ≤ limits.maxBytes + chunkLimit ∨
    ∃ chunk ∈ chunks past, (s.held : Int) ≤ limits.maxBytes + chunk.length

/-- Every run of `read_body` is bounded. -/
def ReadsBounded (limits : BodyLimits) (lower : String → String) (contentEncoding : Option String) : Prop :=
  ∀ onChunk fuel past outcome s,
    (readBody limits lower contentEncoding onChunk fuel).Run past (.done (outcome, s)) →
      Bounded limits past outcome s

@[simp] theorem held_put (s : BodyState) (layer : Layer) (decoder : Decoder) :
    (s.put layer decoder).held = s.held := rfl

section Rules
variable (inv fin : BodyState → Prop)

/-- An end in `inv`, or an exception in `fin`. -/
def Ends : Act.Post BodyAnswer BodyState BodyRaise Unit
  | _, .ok _, s => inv s
  | _, .error _, s => fin s

/-- The action keeps `inv`, and leaves `fin` behind when it raises. -/
def Keeps (p : BodyAct Unit) : Prop :=
  ∀ past s, inv s → p.Safe (fun _ _ => True) (Ends inv fin) past s

/-- Decoders may do what they like to themselves. -/
structure DecoderFree : Prop where
  put : ∀ s layer decoder, inv s → inv (s.put layer decoder)
  weaker : ∀ s, inv s → fin s

variable {inv fin} {emit : Bytes → BodyAct Unit}

theorem Keeps.bind {p q : BodyAct Unit} (first : Keeps inv fin p) (second : Keeps inv fin q) :
    Keeps inv fin (p >>= fun _ => q) := by
  intro past s held
  exact (first past s held).andThen (fun _ _ _ said => said) (fun past _ s said => second past s said)

theorem keeps_pure : Keeps inv fin (pure ()) := fun _ _ held => held

theorem keeps_raise (weaker : ∀ s, inv s → fin s) (e : BodyRaise) : Keeps inv fin (Act.raise e) :=
  fun _ s held => weaker s held

theorem DecoderFree.raise (stable : DecoderFree inv fin) (e : BodyRaise) : Keeps inv fin (Act.raise e) :=
  keeps_raise stable.weaker e

theorem keeps_ask {q : BodyQuestion} {f : BodyAnswer q → BodyAct Unit} (next : ∀ a, Keeps inv fin (f a)) :
    Keeps inv fin (Act.ask q >>= f) := by
  intro past s held
  rw [Act.safe_ask]
  exact ⟨trivial, fun a => next a _ s held⟩

theorem keeps_get {f : BodyState → BodyAct Unit} (next : ∀ s, Keeps inv fin (f s)) :
    Keeps inv fin (Act.get >>= f) := by
  intro past s held
  rw [Act.safe_get]
  exact next s past s held

theorem DecoderFree.put_then (stable : DecoderFree inv fin) {layer : Layer} {decoder : Decoder} {p : BodyAct Unit}
    (next : Keeps inv fin p) : Keeps inv fin (Act.modify (BodyState.put layer decoder) >>= fun _ => p) := by
  intro past s held
  rw [Act.safe_modify]
  exact next past _ (stable.put s layer decoder held)

theorem keeps_yieldSome {out : Bytes} (emits : Keeps inv fin (emit out)) : Keeps inv fin (yieldSome emit out) := by
  unfold yieldSome
  split
  · exact keeps_pure
  · exact emits

theorem inflate_keeps (stable : DecoderFree inv fin) (emits : ∀ piece : Piece, Keeps inv fin (emit piece))
    (fuel : Nat) (object : ZlibObject) (wbits : Option Int) (data : Bytes) :
    Keeps inv fin (inflate emit fuel object wbits data) := by
  induction fuel generalizing object data with
  | zero => exact stable.raise _
  | succ fuel ih =>
    rw [inflate]
    apply keeps_ask
    intro answer
    cases answer with
    | error text => exact stable.raise _
    | ok result =>
      apply (keeps_yieldSome (emits result.out)).bind
      split
      · exact stable.put_then (ih _ _)
      · split
        · exact keeps_pure
        · exact ih _ _

theorem drain_keeps (stable : DecoderFree inv fin) (emits : ∀ piece : Piece, Keeps inv fin (emit piece))
    (layer : Layer) (fuel : Nat) : Keeps inv fin (drain emit layer fuel) := by
  induction fuel with
  | zero => exact stable.raise _
  | succ fuel ih =>
    rw [drain]
    apply keeps_ask
    intro accepts
    cases accepts with
    | true => exact keeps_pure
    | false =>
      apply keeps_ask
      intro answer
      cases answer with
      | error text => exact stable.raise _
      | ok out => exact (keeps_yieldSome (emits out)).bind ih

theorem feed_keeps (stable : DecoderFree inv fin) (emits : ∀ piece : Piece, Keeps inv fin (emit piece))
    (fuel : Nat) (layer : Layer) (data : Bytes) : Keeps inv fin (feed fuel layer data emit) := by
  apply keeps_get
  intro s
  split
  · exact inflate_keeps stable emits _ _ _ _
  · split
    · exact keeps_pure
    · exact stable.put_then (inflate_keeps stable emits _ _ _ _)
  · apply keeps_ask
    intro answer
    cases answer with
    | error text => exact stable.raise _
    | ok out => exact (keeps_yieldSome (emits out)).bind (drain_keeps stable emits layer fuel)

/-- The consumer gets pieces, unless there is no decoder in between. -/
theorem pipe_keeps (stable : DecoderFree inv fin) (emits : ∀ piece : Piece, Keeps inv fin (emit piece))
    (fuel : Nat) {layers : List Layer} {data : Bytes} (direct : layers = [] → Keeps inv fin (emit data)) :
    Keeps inv fin (pipe fuel emit layers data) := by
  induction layers generalizing data with
  | nil => exact direct rfl
  | cons head rest ih => exact feed_keeps stable (fun piece => ih fun _ => emits piece) fuel head data

theorem finish_keeps (stable : DecoderFree inv fin) (emits : ∀ piece : Piece, Keeps inv fin (emit piece))
    (layer : Layer) : Keeps inv fin (finish layer emit) := by
  apply keeps_get
  intro s
  split
  · exact stable.raise _
  · apply keeps_ask
    intro answer
    cases answer with
    | error text => exact stable.raise _
    | ok result =>
      apply (keeps_yieldSome (emits result.out)).bind
      split
      · exact keeps_pure
      · exact stable.raise _
  · apply keeps_ask
    intro finished
    cases finished with
    | true => exact keeps_pure
    | false => exact stable.raise _

theorem finishAll_keeps (stable : DecoderFree inv fin) (emits : ∀ piece : Piece, Keeps inv fin (emit piece))
    (fuel : Nat) (layers : List Layer) : Keeps inv fin (finishAll fuel emit layers) := by
  induction layers with
  | nil => exact keeps_pure
  | cons head rest ih =>
    have passed (piece : Piece) : Keeps inv fin (pipe fuel emit rest piece) :=
      pipe_keeps stable emits fuel fun _ => emits piece
    exact (finish_keeps stable passed head).bind ih

theorem readChunks_keeps (weaker : ∀ s, inv s → fin s) {limits : BodyLimits} {chain : List Layer} {fuel : Nat}
    (takes : ∀ chunk, Keeps inv fin (takeChunk limits fuel chain chunk)) (onChunk : Bool) (left : Nat) :
    Keeps inv fin (readChunks limits onChunk chain fuel left) := by
  have watched : Keeps inv fin (watch onChunk) := by
    cases onChunk with
    | false => exact keeps_pure
    | true =>
      apply keeps_ask
      intro answer
      cases answer with
      | error e => exact keeps_raise weaker e
      | ok _ => exact keeps_pure
  induction left with
  | zero => exact keeps_raise weaker _
  | succ left ih =>
    rw [readChunks]
    apply keeps_ask
    intro answer
    cases answer with
    | error e => exact keeps_raise weaker e
    | ok next =>
      cases next with
      | none => exact keeps_pure
      | some chunk => exact watched.bind ((takes chunk).bind ih)

/-- An invariant over the whole reading is enough, and one for its end that keeps `parts` within the
limit. -/
theorem readDecoded_bounded {late : BodyState → Prop} (weaker : ∀ s, inv s → fin s) {limits : BodyLimits} {chain : List Layer} {fuel : Nat}
    (takes : ∀ chunk, Keeps inv fin (takeChunk limits fuel chain chunk))
    (finishes : Keeps inv fin (finishAll fuel (consumeEntity limits fuel) chain))
    (heads : ∀ past s, inv s →
      (consumeHead limits fuel).Safe (fun _ _ => True) (Ends late fin) past s)
    (counts : ∀ past s, late s → (finishAll fuel (fun piece => count limits piece.length) s.inner).Safe
      (fun _ _ => True) (Ends late fin) past s)
    (within : ∀ s, late s → (s.held : Int) ≤ limits.maxBytes)
    (close : ∀ s, fin s → (s.held : Int) ≤ limits.maxBytes + chunkLimit)
    (onChunk : Bool) {past : List BodyExchange} {s : BodyState} (begun : inv s) :
    (readDecoded limits onChunk fuel chain).Safe (fun _ _ => True) (Bounded limits) past s := by
  have raised (past : List BodyExchange) (e : BodyRaise) (s : BodyState) (said : fin s) :
      Bounded limits past (.error e) s := ⟨nofun, .inl (close s said)⟩
  apply (readChunks_keeps weaker takes onChunk fuel past s begun).andThen raised
  intro past _ s held
  apply (finishes past s held).andThen raised
  intro past _ s held
  apply (heads past s held).andThen raised
  intro past _ s held
  rw [Act.safe_get]
  apply (counts past s held).andThen raised
  intro past _ s held
  rw [Act.safe_get]
  have fits := within s held
  have close : (s.held : Int) ≤ limits.maxBytes + chunkLimit := by omega
  refine ⟨?_, .inl close⟩
  rintro body ⟨⟩
  rw [List.length_flatten]
  exact fits

end Rules

section Count
variable {inv fin : BodyState → Prop} {limits : BodyLimits} {fuel : Nat}

/-- Where nothing is said about the decoded bytes, they may be counted. -/
theorem count_keeps (stable : DecoderFree inv fin) (free : ∀ s decoded, inv s → inv { s with decoded })
    (size : Nat) : Keeps inv fin (count limits size) := by
  intro past s held
  have counted := free s (s.decoded + size) held
  rw [count, Act.safe_modify, Act.safe_get]
  split
  · exact stable.weaker _ counted
  · split
    · exact stable.weaker _ counted
    · exact counted

theorem consume_keeps (stable : DecoderFree inv fin) (free : ∀ s decoded, inv s → inv { s with decoded })
    {past : List BodyExchange} {s : BodyState} {entity : Bytes}
    (appended : inv { s with parts := s.parts ++ [entity] }) :
    (consume limits fuel entity).Safe (fun _ _ => True) (Ends inv fin) past s := by
  rw [consume, Act.safe_modify, Act.safe_get]
  split
  · exact count_keeps stable free _ past _ appended
  · exact pipe_keeps stable (fun _ => count_keeps stable free _) fuel (fun _ => count_keeps stable free _)
      past _ appended

theorem held_append (s : BodyState) (entity : Bytes) :
    ({ s with parts := s.parts ++ [entity] } : BodyState).held = s.held + entity.length := by
  simp [BodyState.held]

end Count

section Direct
variable {limits : BodyLimits} {fuel : Nat}

/-- `parts` is within the limit. -/
def Fits (limits : BodyLimits) (s : BodyState) : Prop := (s.held : Int) ≤ limits.maxBytes

/-- No decoder in front of the store: what is stored was received. -/
def Direct (limits : BodyLimits) (s : BodyState) : Prop :=
  s.held + s.head.length ≤ s.received ∧ (s.received : Int) ≤ limits.maxBytes

theorem direct_stable : DecoderFree (Direct limits) (Fits limits) where
  put := fun _ _ _ held => held
  weaker := by
    intro s ⟨stored, within⟩
    unfold Fits
    omega

theorem fits_stable : DecoderFree (Fits limits) (Fits limits) where
  put := fun _ _ _ held => held
  weaker := fun _ held => held

theorem consumeEntity_direct {past : List BodyExchange} {s : BodyState} {entity : Bytes}
    (room : s.held + s.head.length + entity.length ≤ s.received)
    (within : (s.received : Int) ≤ limits.maxBytes) :
    (consumeEntity limits fuel entity).Safe (fun _ _ => True) (Ends (Direct limits) (Fits limits)) past s := by
  have longer : (s.head ++ entity).length = s.head.length + entity.length := List.length_append
  rw [consumeEntity, Act.safe_get]
  split
  · apply consume_keeps direct_stable (fun _ _ held => held)
    refine ⟨?_, within⟩
    rw [held_append]
    dsimp only
    omega
  · dsimp only
    split
    · refine ⟨?_, within⟩
      show s.held + (s.head ++ entity).length ≤ s.received
      omega
    · -- The prefix goes to the store at once, and is empty from then on.
      split
      · rw [Act.safe_modify]
        apply consume_keeps direct_stable (fun _ _ held => held)
        refine ⟨?_, within⟩
        rw [held_append]
        show s.held + (s.head ++ entity).length + 0 ≤ s.received
        omega
      · rw [Act.safe_modify]
        apply consume_keeps direct_stable (fun _ _ held => held)
        refine ⟨?_, within⟩
        rw [held_append]
        show s.held + (s.head ++ entity).length + 0 ≤ s.received
        omega

theorem takeChunk_direct (chunk : Bytes) :
    Keeps (Direct limits) (Fits limits) (takeChunk limits fuel [] chunk) := by
  intro past s held
  rw [takeChunk, Act.safe_modify, Act.safe_get]
  split
  · exact direct_stable.weaker s held
  · rename_i within
    apply consumeEntity_direct
    · show s.held + s.head.length + chunk.length ≤ s.received + chunk.length
      have stored := held.1
      omega
    · exact not_lt.mp within

theorem consumeHead_direct (past : List BodyExchange) (s : BodyState) (held : Direct limits s) :
    (consumeHead limits fuel).Safe (fun _ _ => True) (Ends (Fits limits) (Fits limits)) past s := by
  rw [consumeHead, Act.safe_get]
  split
  · exact direct_stable.weaker s held
  · apply consume_keeps fits_stable (fun _ _ held => held)
    obtain ⟨stored, within⟩ := held
    unfold Fits
    rw [held_append]
    omega

/-- Without a decoder the limit on the received bytes bounds the store. -/
theorem direct_bounded (nonneg : 0 ≤ limits.maxBytes) (onChunk : Bool) {past : List BodyExchange} :
    (readDecoded limits onChunk fuel []).Safe (fun _ _ => True) (Bounded limits) past (.start limits []) := by
  apply readDecoded_bounded direct_stable.weaker takeChunk_direct keeps_pure consumeHead_direct
  · intro past s held
    exact finishAll_keeps fits_stable (fun _ => count_keeps fits_stable (fun _ _ held => held) _) fuel s.inner
      past s held
  · exact fun _ held => held
  · intro s held
    unfold Fits at held
    omega
  · exact ⟨le_refl 0, nonneg⟩

end Direct

section Counted
variable {limits : BodyLimits} {fuel : Nat}

/-- A page: what is stored is what was counted. -/
structure Counted (limits : BodyLimits) (s : BodyState) : Prop where
  decided : s.decided = true
  plain : s.inner = []
  headless : s.head = []
  same : s.held = s.decoded
  within : (s.decoded : Int) ≤ limits.maxBytes

/-- One step above the limit, no more. -/
def NearlyFits (limits : BodyLimits) (s : BodyState) : Prop :=
  (s.held : Int) ≤ limits.maxBytes + chunkLimit

theorem counted_stable : DecoderFree (Counted limits) (NearlyFits limits) where
  put := fun _ _ _ held => ⟨held.decided, held.plain, held.headless, held.same, held.within⟩
  weaker := by
    intro s held
    have same := held.same
    have within := held.within
    unfold NearlyFits
    omega

theorem consumeEntity_counted (piece : Piece) :
    Keeps (Counted limits) (NearlyFits limits) (consumeEntity limits fuel piece) := by
  intro past s held
  have short := piece.property
  have same := held.same
  have within := held.within
  have near : NearlyFits limits { s with
      parts := s.parts ++ [piece.val], decoded := s.decoded + piece.val.length } := by
    show ((({ s with parts := s.parts ++ [piece.val] } : BodyState).held : Nat) : Int) ≤ _
    rw [held_append]
    omega
  rw [consumeEntity, Act.safe_get, if_pos held.decided, consume, Act.safe_modify, Act.safe_get,
    if_pos held.plain, count, Act.safe_modify, Act.safe_get]
  split
  · exact near
  · split
    · exact near
    · rename_i fits _
      refine ⟨held.decided, held.plain, held.headless, ?_, not_lt.mp fits⟩
      show ({ s with parts := s.parts ++ [piece.val] } : BodyState).held = s.decoded + piece.val.length
      rw [held_append, same]

theorem takeChunk_counted {chain : List Layer} (decodes : chain ≠ []) (chunk : Bytes) :
    Keeps (Counted limits) (NearlyFits limits) (takeChunk limits fuel chain chunk) := by
  intro past s held
  rw [takeChunk, Act.safe_modify, Act.safe_get]
  have received : Counted limits { s with received := s.received + chunk.length } :=
    ⟨held.decided, held.plain, held.headless, held.same, held.within⟩
  split
  · exact counted_stable.weaker _ received
  · exact pipe_keeps counted_stable consumeEntity_counted fuel (fun none => absurd none decodes) past _ received

/-- Where every stored piece is counted, the count bounds the store. -/
theorem counted_bounded (nonneg : 0 ≤ limits.maxBytes) (page : limits.sitemap = false) {chain : List Decoder}
    {layers : List Layer} (decodes : layers ≠ []) (onChunk : Bool) {past : List BodyExchange} :
    (readDecoded limits onChunk fuel layers).Safe (fun _ _ => True) (Bounded limits) past
      (.start limits chain) := by
  apply readDecoded_bounded counted_stable.weaker (takeChunk_counted decodes)
    (finishAll_keeps counted_stable consumeEntity_counted fuel layers)
  · intro past s held
    rw [consumeHead, Act.safe_get, if_pos held.headless]
    exact held
  · intro past s held
    rw [held.plain]
    exact held
  · intro s held
    rw [held.same]
    exact held.within
  · exact fun _ held => held
  · refine ⟨?_, rfl, rfl, rfl, nonneg⟩
    simp [BodyState.start, page]

end Counted

section Idle
variable {limits : BodyLimits} {fuel : Nat}

/-- Nothing was received, and the first decoder has not begun. -/
structure Idle (s : BodyState) : Prop where
  empty : s.parts = []
  headless : s.head = []
  unreceived : s.received = 0
  unfed : ∃ wbits, s.decoders (.outer 0) = .zlib wbits none

/-- Nothing can be received under a limit of zero, and zlib makes nothing of nothing. -/
theorem idle_bounded (zero : limits.maxBytes = 0) {wbits : Option Int} {chain : List Decoder}
    {layers : List Layer} (onChunk : Bool) {past : List BodyExchange} :
    (readDecoded limits onChunk fuel (.outer 0 :: layers)).Safe (fun _ _ => True) (Bounded limits) past
      (.start limits (.zlib wbits none :: chain)) := by
  have silent (s : BodyState) (empty : s.parts = []) : s.held = 0 := by
    simp [BodyState.held, empty]
  have takes (past : List BodyExchange) (s : BodyState) (held : Idle s) (chunk : Bytes) :
      (takeChunk limits fuel (.outer 0 :: layers) chunk).Safe (fun _ _ => True)
        (Ends Idle fun s => s.parts = []) past s := by
    obtain ⟨wbits, unfed⟩ := held.unfed
    rw [takeChunk, Act.safe_modify, Act.safe_get]
    split
    · exact held.empty
    · rename_i within
      have none : chunk = [] := by
        apply List.eq_nil_of_length_eq_zero
        dsimp only at within
        rw [zero, held.unreceived] at within
        omega
      subst none
      rw [pipe, feed, Act.safe_get]
      dsimp only
      rw [unfed]
      exact ⟨held.empty, held.headless, held.unreceived, _, unfed⟩
  have unfinished : Keeps Idle (fun s => s.parts = [])
      (finishAll fuel (consumeEntity limits fuel) (.outer 0 :: layers)) := by
    intro past s held
    obtain ⟨wbits, unfed⟩ := held.unfed
    rw [finishAll]
    apply Act.safe_bind
    rw [finish, Act.safe_get, unfed]
    exact held.empty
  have unstored : DecoderFree (fun s => s.parts = []) (fun s => s.parts = []) :=
    ⟨fun _ _ _ held => held, fun _ held => held⟩
  have heads (past : List BodyExchange) (s : BodyState) (held : Idle s) : (consumeHead limits fuel).Safe
      (fun _ _ => True) (Ends (fun s => s.parts = []) fun s => s.parts = []) past s := by
    rw [consumeHead, Act.safe_get, if_pos held.headless]
    exact held.empty
  apply readDecoded_bounded (fun _ held => held.empty) (fun chunk past s held => takes past s held chunk)
    unfinished heads
  · intro past s held
    exact finishAll_keeps unstored (fun _ => count_keeps unstored (fun _ _ held => held) _) fuel s.inner
      past s held
  · intro s held
    rw [silent s held, zero]
    rfl
  · intro s held
    rw [silent s held, zero]
    exact Int.natCast_nonneg _
  · exact ⟨rfl, rfl, rfl, wbits, rfl⟩

end Idle

end Collector.Fetch
