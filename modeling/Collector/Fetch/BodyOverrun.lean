import Collector.Fetch.BodyBounds

/-!
The body that goes over: a gzip file inside a `Content-Encoding`, asked for as a sitemap. Each chunk
of the network is small, each entity is a little larger, and the gzip members in the file are empty,
so nothing is ever counted.
-/

namespace Collector.Fetch
open Collector.Lib Collector.Persistence

section Reaches
variable {emit : Bytes → BodyAct Unit} {s : BodyState} {T U : BodyState → Prop} {fuel : Nat}

/-- Some answers take the action from `s` to an end in `T`. -/
def Reaches (p : BodyAct Unit) (s : BodyState) (T : BodyState → Prop) : Prop :=
  ∀ past, p.May (fun _ _ => False) (fun _ r t => r = .ok () ∧ T t) past s

theorem Reaches.bind {p q : BodyAct Unit} (first : Reaches p s U) (second : ∀ t, U t → Reaches q t T) :
    Reaches (p >>= fun _ => q) s T := by
  intro past
  apply (first past).andThen
  · intro past e t said
    cases said.1
  · intro past _ t said
    exact second t said.2 past

/-- What leaves the state as it is can be passed by. -/
theorem Reaches.still {p : BodyAct Unit} (quiet : Reaches p s (· = s)) {β : Type} {f : Unit → BodyAct β}
    {R : Act.Post BodyAnswer BodyState BodyRaise β} {past : List BodyExchange}
    (next : ∀ past, (f ()).May (fun _ _ => False) R past s) :
    (p >>= f).May (fun _ _ => False) R past s := by
  apply (quiet past).andThen
  · intro past e t said
    cases said.1
  · intro past _ t said
    rw [said.2]
    exact next past

theorem reaches_pure (ends : T s) : Reaches (pure ()) s T := fun _ => ⟨rfl, ends⟩

theorem reaches_ask {q : BodyQuestion} {f : BodyAnswer q → BodyAct Unit} (a : BodyAnswer q)
    (next : Reaches (f a) s T) : Reaches (Act.ask q >>= f) s T :=
  fun past => Act.may_ask a (next (⟨q, a⟩ :: past))

theorem reaches_get {f : BodyState → BodyAct Unit} (next : Reaches (f s) s T) : Reaches (Act.get >>= f) s T :=
  next

theorem reaches_modify {change : BodyState → BodyState} {p : BodyAct Unit} (next : Reaches p (change s) T) :
    Reaches (Act.modify change >>= fun _ => p) s T := next

/-- The decoder has an object to finish. -/
def Decoder.Started : Decoder → Prop
  | .zlib _ none => False
  | _ => True

/-- From `s` to `t` the decoders of `layers` were fed, and that is all. -/
structure Advanced (layers : List Layer) (s t : BodyState) : Prop where
  same : ∃ decoders, t = { s with decoders }
  others : ∀ layer, layer ∉ layers → t.decoders layer = s.decoders layer
  started : ∀ layer ∈ layers, (t.decoders layer).Started

theorem Advanced.append {first second : List Layer} {r s t : BodyState} (before : Advanced first r s)
    (after : Advanced second s t) : Advanced (first ++ second) r t := by
  obtain ⟨_, rfl⟩ := before.same
  obtain ⟨decoders, rfl⟩ := after.same
  refine ⟨⟨decoders, rfl⟩, fun layer outside => ?_, fun layer inside => ?_⟩
  · rw [List.mem_append, not_or] at outside
    exact (after.others layer outside.2).trans (before.others layer outside.1)
  · by_cases again : layer ∈ second
    · exact after.started layer again
    · have unchanged := after.others layer again
      dsimp only at unchanged ⊢
      rw [unchanged]
      exact before.started layer ((List.mem_append.mp inside).resolve_right again)

/-- One step of zlib that gives `out` and is done. -/
theorem inflate_reaches (out : Piece) (short : out.val.length < chunkLimit) {object : ZlibObject}
    {wbits : Option Int} {data : Bytes} (next : Reaches (yieldSome emit out) s T) :
    Reaches (inflate emit (fuel + 1) object wbits data) s T := by
  rw [inflate]
  apply reaches_ask (q := .decompress object data) (Except.ok ⟨out, [], [], false⟩)
  apply next.bind
  intro t ends
  rw [if_neg (fun impossible => Bool.false_ne_true impossible.1), if_pos ⟨rfl, short⟩]
  exact reaches_pure ends

theorem feed_reaches (out : Piece) (short : out.val.length < chunkLimit) {layer : Layer} {data : Bytes}
    (ready : data ≠ [] ∨ s.decoders layer = .brotli)
    (next : ∀ t, Advanced [layer] s t → Reaches (yieldSome emit out) t T) :
    Reaches (feed (fuel + 1) layer data emit) s T := by
  have alone {other : Layer} (outside : other ∉ [layer]) : other ≠ layer := List.ne_of_not_mem_cons outside
  have unchanged (started : (s.decoders layer).Started) : Advanced [layer] s s :=
    ⟨⟨s.decoders, rfl⟩, fun _ _ => rfl, fun other inside => by rwa [List.mem_singleton.mp inside]⟩
  apply reaches_get
  cases found : s.decoders layer with
  | zlib wbits object =>
    cases object with
    | some object => exact inflate_reaches out short (next s (unchanged (found ▸ trivial)))
    | none =>
      have fed : data ≠ [] := by
        rcases ready with fed | brotli
        · exact fed
        · rw [found] at brotli
          cases brotli
      dsimp only
      rw [if_neg fed]
      apply reaches_modify
      apply inflate_reaches out short
      apply next
      refine ⟨⟨_, rfl⟩, fun other outside => ?_, fun other inside => ?_⟩
      · exact Function.update_of_ne (alone outside) _ _
      · rw [List.mem_singleton.mp inside]
        show Decoder.Started (Function.update s.decoders layer _ layer)
        rw [Function.update_self]
        trivial
  | brotli =>
    apply reaches_ask (q := .process layer data) (Except.ok out)
    apply (next s (unchanged (found ▸ trivial))).bind
    intro t ends
    apply reaches_ask (q := .canAcceptMoreData layer) true
    exact reaches_pure ends

/-- Through any chain of decoders the start of a gzip file can come out. -/
theorem pipe_reaches (head : Layer) (rest : List Layer) {data : Bytes}
    (ready : data ≠ [] ∨ s.decoders head = .brotli)
    (next : ∀ t, Advanced (head :: rest) s t → Reaches (emit gzipMagic) t T) :
    Reaches (pipe (fuel + 1) emit (head :: rest) data) s T := by
  induction rest generalizing head s data with
  | nil => exact feed_reaches ⟨gzipMagic, by decide⟩ (by decide) ready next
  | cons second rest ih =>
    apply feed_reaches ⟨gzipMagic, by decide⟩ (by decide) ready
    intro t fed
    exact ih second (.inl (by decide)) fun u later => next u (fed.append later)

theorem finish_reaches {layer : Layer} (started : (s.decoders layer).Started) (ends : T s) :
    Reaches (finish layer emit) s T := by
  apply reaches_get
  cases found : s.decoders layer with
  | zlib wbits object =>
    cases object with
    | none =>
      rw [found] at started
      exact started.elim
    | some object =>
      apply reaches_ask (q := .flush object) (Except.ok ⟨⟨[], by decide⟩, true⟩)
      exact (reaches_pure ends).bind fun t ends => reaches_pure ends
  | brotli =>
    apply reaches_ask (q := .isFinished layer) true
    exact reaches_pure ends

theorem finishAll_reaches {layers : List Layer} (started : ∀ layer ∈ layers, (s.decoders layer).Started)
    (ends : T s) : Reaches (finishAll fuel emit layers) s T := by
  induction layers with
  | nil => exact reaches_pure ends
  | cons head rest ih =>
    rw [finishAll]
    have first : Reaches (finish head (pipe fuel emit rest)) s (· = s) :=
      finish_reaches (started head List.mem_cons_self) rfl
    exact fun _ => first.still (ih fun layer inside => started layer (List.mem_cons_of_mem head inside))

end Reaches

section Overrun
variable {limits : BodyLimits} {fuel : Nat} {layers : List Layer} {chunk : Bytes}

/-- Between two chunks: so much is stored, all decoders are in use, and the file is being counted. -/
structure Overrun (layers : List Layer) (held received : Nat) (s : BodyState) : Prop where
  decided : s.decided = true
  counting : s.inner = [.inner]
  headless : s.head = []
  stored : s.held = held
  received : s.received = received
  started : ∀ layer ∈ layers, (s.decoders layer).Started
  innerStarted : (s.decoders .inner).Started

/-- A piece of the file is stored, and its members are empty. -/
theorem consume_reaches {s : BodyState} (decided : s.decided = true) (counting : s.inner = [.inner])
    (headless : s.head = []) (started : ∀ layer ∈ layers, (s.decoders layer).Started)
    (outside : Layer.inner ∉ layers) :
    Reaches (consume limits (fuel + 1) gzipMagic) s (Overrun layers (s.held + 2) s.received) := by
  apply reaches_modify
  apply reaches_get
  rw [if_neg (by simp [counting])]
  dsimp only
  rw [counting]
  apply feed_reaches ⟨[], by decide⟩ (by decide) (.inl (by decide))
  intro t fed
  obtain ⟨decoders, rfl⟩ := fed.same
  apply reaches_pure
  refine ⟨decided, rfl, headless, held_append s gzipMagic, rfl, fun layer inside => ?_, ?_⟩
  · have apart : layer ∉ [Layer.inner] := fun same => outside (List.mem_singleton.mp same ▸ inside)
    have unchanged := fed.others layer apart
    dsimp only at unchanged ⊢
    rw [unchanged]
    exact started layer inside
  · exact fed.started .inner List.mem_cons_self

/-- The first piece shows that the entity is a gzip file. -/
theorem consumeEntity_first {s : BodyState} (undecided : s.decided = false) (plain : s.inner = [])
    (headless : s.head = []) (started : ∀ layer ∈ layers, (s.decoders layer).Started)
    (outside : Layer.inner ∉ layers) :
    Reaches (consumeEntity limits (fuel + 1) gzipMagic) s (Overrun layers (s.held + 2) s.received) := by
  apply reaches_get
  rw [if_neg (by simp [undecided]), headless]
  apply reaches_modify
  have counting : s.inner ++ [Layer.inner] = [.inner] := by rw [plain, List.nil_append]
  apply consume_reaches rfl counting rfl _ outside
  intro layer inside
  have apart : layer ≠ .inner := fun same => outside (same ▸ inside)
  show Decoder.Started (Function.update s.decoders .inner _ layer)
  rw [Function.update_of_ne apart]
  exact started layer inside

theorem takeChunk_reaches {s : BodyState} {head : Layer} {rest : List Layer} {T : BodyState → Prop}
    (ready : chunk ≠ [] ∨ s.decoders head = .brotli)
    (fits : ((s.received + chunk.length : Nat) : Int) ≤ limits.maxBytes)
    (entity : ∀ t, Advanced (head :: rest) { s with received := s.received + chunk.length } t →
      Reaches (consumeEntity limits (fuel + 1) gzipMagic) t T) :
    Reaches (takeChunk limits (fuel + 1) (head :: rest) chunk) s T := by
  apply reaches_modify
  apply reaches_get
  rw [if_neg (not_lt.mpr fits)]
  exact pipe_reaches head rest ready entity

theorem takeChunk_first {s : BodyState} {head : Layer} {rest : List Layer} (undecided : s.decided = false)
    (plain : s.inner = []) (headless : s.head = []) (outside : Layer.inner ∉ head :: rest)
    (ready : chunk ≠ [] ∨ s.decoders head = .brotli)
    (fits : ((s.received + chunk.length : Nat) : Int) ≤ limits.maxBytes) :
    Reaches (takeChunk limits (fuel + 1) (head :: rest) chunk) s
      (Overrun (head :: rest) (s.held + 2) (s.received + chunk.length)) := by
  apply takeChunk_reaches ready fits
  intro t fed
  obtain ⟨decoders, rfl⟩ := fed.same
  exact consumeEntity_first undecided plain headless fed.started outside

theorem takeChunk_next {s : BodyState} {head : Layer} {rest : List Layer} {held received : Nat}
    (before : Overrun (head :: rest) held received s) (outside : Layer.inner ∉ head :: rest)
    (ready : chunk ≠ [] ∨ s.decoders head = .brotli)
    (fits : ((received + chunk.length : Nat) : Int) ≤ limits.maxBytes) :
    Reaches (takeChunk limits (fuel + 1) (head :: rest) chunk) s
      (Overrun (head :: rest) (held + 2) (received + chunk.length)) := by
  obtain ⟨decided, counting, headless, rfl, rfl, _, _⟩ := before
  apply takeChunk_reaches ready fits
  intro t fed
  obtain ⟨decoders, rfl⟩ := fed.same
  apply reaches_get
  rw [if_pos decided]
  exact consume_reaches decided counting headless fed.started outside

theorem readChunks_step {s : BodyState} {T U : BodyState → Prop} {left : Nat}
    (taken : Reaches (takeChunk limits fuel layers chunk) s U)
    (rest : ∀ t, U t → Reaches (readChunks limits false layers fuel left) t T) :
    Reaches (readChunks limits false layers fuel (left + 1)) s T := by
  rw [readChunks]
  apply reaches_ask (q := .chunk) (Except.ok (some chunk))
  exact taken.bind rest

/-- More chunks of the same kind, and the end of the stream. -/
theorem readChunks_reaches {s : BodyState} {head : Layer} {rest : List Layer} {held received : Nat}
    (before : Overrun (head :: rest) held received s) (outside : Layer.inner ∉ head :: rest)
    (more : Nat) (single : chunk ≠ [] ∨ more = 0)
    (fits : ((received + more * chunk.length : Nat) : Int) ≤ limits.maxBytes) :
    Reaches (readChunks limits false (head :: rest) (fuel + 1) (more + 1)) s
      (Overrun (head :: rest) (held + 2 * more) (received + more * chunk.length)) := by
  induction more generalizing s held received with
  | zero =>
    rw [Nat.zero_mul, Nat.mul_zero]
    exact reaches_ask (q := .chunk) (Except.ok none) (reaches_pure before)
  | succ more ih =>
    have fed : chunk ≠ [] := single.resolve_right (Nat.succ_ne_zero more)
    have split : received + (more + 1) * chunk.length = received + chunk.length + more * chunk.length := by
      rw [Nat.succ_mul]
      omega
    rw [split] at fits ⊢
    have next : Reaches (takeChunk limits (fuel + 1) (head :: rest) chunk) s
        (Overrun (head :: rest) (held + 2) (received + chunk.length)) := by
      apply takeChunk_next before outside (.inl fed)
      omega
    apply readChunks_step next
    intro t after
    have total : held + 2 * (more + 1) = held + 2 + 2 * more := by omega
    rw [total]
    exact ih after (.inl fed) fits

/-- The whole reading of such a file. -/
theorem readDecoded_overrun {s : BodyState} {head : Layer} {rest : List Layer} (undecided : s.decided = false)
    (plain : s.inner = []) (headless : s.head = []) (outside : Layer.inner ∉ head :: rest)
    (ready : chunk ≠ [] ∨ s.decoders head = .brotli) (more : Nat) (single : chunk ≠ [] ∨ more = 0)
    (fits : ((s.received + (more + 1) * chunk.length : Nat) : Int) ≤ limits.maxBytes)
    (past : List BodyExchange) :
    (readDecoded limits false (more + 2) (head :: rest)).May (fun _ _ => False)
      (fun _ r _ => ∃ body, r = .ok body ∧ body.data.length = s.held + 2 * (more + 1)) past s := by
  have first : Reaches (takeChunk limits (more + 2) (head :: rest) chunk) s
      (Overrun (head :: rest) (s.held + 2) (s.received + chunk.length)) := by
    apply takeChunk_first undecided plain headless outside ready
    rw [Nat.succ_mul] at fits
    omega
  have read : Reaches (readChunks limits false (head :: rest) (more + 2) (more + 2)) s
      (Overrun (head :: rest) (s.held + 2 + 2 * more) (s.received + chunk.length + more * chunk.length)) := by
    apply readChunks_step first
    intro t after
    apply readChunks_reaches after outside more single
    rw [Nat.succ_mul] at fits
    omega
  apply (read past).andThen (fun _ _ _ said => nomatch said.1)
  intro past _ t ⟨_, after⟩
  have finished : Reaches (finishAll (more + 2) (consumeEntity limits (more + 2)) (head :: rest)) t (· = t) :=
    finishAll_reaches after.started rfl
  apply finished.still
  intro past
  have headless : Reaches (consumeHead limits (more + 2)) t (· = t) := by
    apply reaches_get
    rw [if_pos after.headless]
    exact reaches_pure rfl
  apply headless.still
  intro past
  have counted : Reaches (finishAll (more + 2) (fun piece => count limits piece.length) [.inner]) t (· = t) := by
    have started (layer : Layer) (inside : layer ∈ [Layer.inner]) : (t.decoders layer).Started := by
      rw [List.mem_singleton.mp inside]
      exact after.innerStarted
    exact finishAll_reaches started rfl
  rw [Act.may_get, after.counting]
  apply counted.still
  intro past
  refine ⟨_, rfl, ?_⟩
  rw [List.length_flatten]
  have stored := after.stored
  unfold BodyState.held at stored ⊢
  omega

end Overrun

theorem decoderNamed_fresh {name : String} {decoder : Decoder} (known : decoderNamed name = some decoder) :
    decoder = .brotli ∨ ∃ wbits, decoder = .zlib wbits none := by
  unfold decoderNamed at known
  split_ifs at known
  · exact .inr ⟨_, (Option.some.inj known).symm⟩
  · exact .inr ⟨_, (Option.some.inj known).symm⟩
  · exact .inl (Option.some.inj known).symm

theorem decodersFor_fresh {lower : String → String} {contentEncoding : Option String} {chain : List Decoder}
    (known : decodersFor lower contentEncoding = .ok chain) :
    ∀ decoder ∈ chain, decoder = .brotli ∨ ∃ wbits, decoder = .zlib wbits none := by
  unfold decodersFor at known
  dsimp only at known
  generalize (List.filter _ _).reverse = names at known
  induction names generalizing chain with
  | nil =>
    cases known
    exact nofun
  | cons name names ih =>
    simp only [List.mapM_cons, Except.bind_eq_ok] at known
    obtain ⟨decoder, named, decoders, rest, same⟩ := known
    cases same
    cases found : decoderNamed name with
    | none =>
      rw [found] at named
      cases named
    | some fresh =>
      rw [found] at named
      cases named
      intro other inside
      rcases List.mem_cons.mp inside with rfl | later
      · exact decoderNamed_fresh found
      · exact ih rest other later

theorem layersOf_cons (decoder : Decoder) (rest : List Decoder) :
    ∃ layers, layersOf (decoder :: rest) = .outer 0 :: layers :=
  ⟨_, by rw [layersOf, List.length_cons, List.range_succ_eq_map, List.map_cons]⟩

theorem inner_notMem_layersOf (chain : List Decoder) : Layer.inner ∉ layersOf chain := by
  simp [layersOf]

section Main
variable {limits : BodyLimits} {lower : String → String} {contentEncoding : Option String}
  {chain : List Decoder}

theorem readBody_of_known (known : decodersFor lower contentEncoding = .ok chain) (onChunk : Bool) (fuel : Nat) :
    readBody limits lower contentEncoding onChunk fuel =
      readDecoded limits onChunk fuel (layersOf chain) (.start limits chain) := by
  rw [readBody, known]

theorem readsBounded_of_safe (known : decodersFor lower contentEncoding = .ok chain)
    (safe : ∀ onChunk fuel, (readDecoded limits onChunk fuel (layersOf chain)).Safe (fun _ _ => True)
      (Bounded limits) [] (.start limits chain)) : ReadsBounded limits lower contentEncoding := by
  intro onChunk fuel past outcome s run
  rw [readBody_of_known known] at run
  exact Script.Safe.run (safe onChunk fuel) run

theorem readsBounded_of_refused (nonneg : 0 ≤ limits.maxBytes) {e : BodyRaise}
    (refused : decodersFor lower contentEncoding = .error e) : ReadsBounded limits lower contentEncoding := by
  intro onChunk fuel past outcome s run
  rw [readBody, refused] at run
  have started : Bounded limits [] (.error e) (.start limits []) := by
    refine ⟨nofun, .inl ?_⟩
    show 0 ≤ limits.maxBytes + (chunkLimit : Int)
    omega
  have safe : (Script.done (.error e, .start limits []) :
      Script BodyQuestion BodyAnswer (Except BodyRaise Body × BodyState)).Safe (fun _ _ => True)
        (fun past r => Bounded limits past r.1 r.2) [] := started
  exact safe.run run

theorem readsBounded_page (nonneg : 0 ≤ limits.maxBytes) (page : limits.sitemap = false) :
    ReadsBounded limits lower contentEncoding := by
  cases known : decodersFor lower contentEncoding with
  | error e => exact readsBounded_of_refused nonneg known
  | ok chain =>
    apply readsBounded_of_safe known
    intro onChunk fuel
    cases chain with
    | nil => exact direct_bounded nonneg onChunk
    | cons decoder rest =>
      obtain ⟨layers, shape⟩ := layersOf_cons decoder rest
      exact counted_bounded nonneg page (shape ▸ List.cons_ne_nil _ _) onChunk

/-- With a decoder in front of it a sitemap can go over. -/
theorem overruns {decoder : Decoder} (nonneg : 0 ≤ limits.maxBytes)
    (known : decodersFor lower contentEncoding = .ok (decoder :: chain)) (sitemap : limits.sitemap = true)
    (opens : limits.maxBytes = 0 → decoder = .brotli) : ¬ReadsBounded limits lower contentEncoding := by
  intro bounded
  obtain ⟨layers, shape⟩ := layersOf_cons decoder chain
  have outside : Layer.inner ∉ .outer 0 :: layers := shape ▸ inner_notMem_layersOf _
  have undecided : (BodyState.start limits (decoder :: chain)).decided = false := by
    simp [BodyState.start, sitemap]
  have exceeds (chunk : Bytes) (more : Nat) (ready : chunk ≠ [] ∨ decoder = .brotli)
      (single : chunk ≠ [] ∨ more = 0) (fits : (((more + 1) * chunk.length : Nat) : Int) ≤ limits.maxBytes)
      (above : limits.maxBytes < 2 * (more + 1 : Nat)) : False := by
    have may := readDecoded_overrun undecided rfl rfl outside ready more single
      (by rwa [show (BodyState.start limits (decoder :: chain)).received = 0 from rfl, Nat.zero_add]) []
    rcases Script.May.run may .nil with ⟨past, outcome, run, body, same, length⟩ | ⟨_, _, _, _, never⟩
    · rw [← shape, ← readBody_of_known known] at run
      have limit := (bounded false (more + 2) past outcome.1 outcome.2 run).returned body same
      rw [length, show (BodyState.start limits (decoder :: chain)).held = 0 from rfl] at limit
      omega
    · exact never
  by_cases zero : limits.maxBytes = 0
  · exact exceeds [] 0 (.inr (opens zero)) (.inr rfl) (by simp [zero]) (by simp [zero])
  · apply exceeds [0] (limits.maxBytes.toNat - 1)
    · exact .inl (List.cons_ne_nil _ _)
    · exact .inl (List.cons_ne_nil _ _)
    · rw [List.length_singleton]
      omega
    · omega

end Main

/-- A gzip file without content. -/
def emptyMember : Bytes := [31, 139, 8, 0, 0, 0, 0, 0, 2, 3, 3, 0, 0, 0, 0, 0, 0, 0, 0, 0]

/-- Four of them, 80 bytes that decode to nothing. -/
def emptySitemap : Bytes := emptyMember ++ emptyMember ++ emptyMember ++ emptyMember

/-- The same 80 bytes after gzip: 34 bytes on the wire. -/
def zippedSitemap : Bytes :=
  [31, 139, 8, 0, 0, 0, 0, 0, 2, 3, 147, 239, 230, 96, 0, 1, 38, 102, 102, 6, 24, 144, 167, 64, 12, 0,
    150, 201, 253, 84, 80, 0, 0, 0]

/-- The server sends `zippedSitemap`, and zlib answers as it does on these bytes. -/
def sitemapWorld (past : List BodyExchange) : (q : BodyQuestion) → BodyAnswer q
  | .chunk => .ok (if chunks past = [] then some zippedSitemap else none)
  | .onChunk => .ok ()
  | .decompress ⟨.outer _, _, _⟩ _ => .ok ⟨⟨emptySitemap, by decide⟩, [], [], true⟩
  | .decompress ⟨.inner, _, _⟩ data => .ok ⟨⟨[], by decide⟩, [], data.drop emptyMember.length, true⟩
  | .flush _ => .ok ⟨⟨[], by decide⟩, true⟩
  | .process _ _ => .ok ⟨[], by decide⟩
  | .canAcceptMoreData _ => true
  | .isFinished _ => true

/-- A limit of 40 bytes. -/
def sitemapLimits : BodyLimits := ⟨40, 200, 1024 * 1024, true⟩

def sitemapRun :=
  (readBody sitemapLimits id (some "gzip") true 6).replay sitemapWorld 40 []

end Collector.Fetch
