import Formula.Proofs.Caching

/-!
The statistics of the cache. A history of calls leaves a record of the searches made since the last
reset, each with its key, what it came to and whether it counted as a hit. The counters, the number of
graphs kept and every hit are what the record says.
-/

namespace Formula

namespace CacheKey

/-- Whether two keys are of one dialect, one text, the same arguments and the same set of functions. -/
def Same (left right : CacheKey) : Prop :=
  left.dialect = right.dialect ∧ left.text = right.text ∧ left.arguments = right.arguments ∧
    ∀ name, name ∈ left.functions ↔ name ∈ right.functions

variable {left right other : CacheKey}

theorem agrees_iff_same : left.agrees right = true ↔ left.Same right := agrees_iff

theorem Same.symm (same : left.Same right) : right.Same left := by
  obtain ⟨dialect, text, arguments, functions⟩ := same
  exact ⟨dialect.symm, text.symm, arguments.symm, fun name => (functions name).symm⟩

theorem Same.trans (first : left.Same right) (second : right.Same other) : left.Same other := by
  obtain ⟨dialect, text, arguments, functions⟩ := first
  obtain ⟨dialectTwo, textTwo, argumentsTwo, functionsTwo⟩ := second
  exact ⟨dialect.trans dialectTwo, text.trans textTwo, arguments.trans argumentsTwo,
    fun name => (functions name).trans (functionsTwo name)⟩

end CacheKey

theorem GraphCache.find?_same {cache : GraphCache} {left right : CacheKey} (same : left.Same right) :
    cache.find? left = cache.find? right := by
  have alike (kept : CacheKey) : kept.agrees left = kept.agrees right := by
    rw [Bool.eq_iff_iff, CacheKey.agrees_iff_same, CacheKey.agrees_iff_same]
    exact ⟨fun first => first.trans same, fun first => first.trans same.symm⟩
  simp only [find?, alike]

/-- A search of the cache: what it was for, what the lowering and the whole call came to, and whether the
hits went up by one. -/
structure Search where
  key : CacheKey
  lowered : Except Failure Graph
  answer : Except Failure Graph
  hit : Bool

/-- A search is a hit if and only if one before it with the same key came to a graph, and comes to the
same graph then. -/
structure Repeating (searches : List Search) : Prop where
  repeats : ∀ earlier search, earlier ++ [search] <+: searches →
    (search.hit = true ↔
      ∃ former ∈ earlier, former.key.Same search.key ∧ ∃ graph, former.lowered = .ok graph)
  identical : ∀ earlier search, earlier ++ [search] <+: searches →
    ∀ former ∈ earlier, former.key.Same search.key →
      ∀ graph, former.lowered = .ok graph → search.lowered = .ok graph
  /-- A call that returns a graph returns the one that was lowered or found. -/
  returned : ∀ search ∈ searches, ∀ graph, search.answer = .ok graph → search.lowered = .ok graph

/-- What statistics tell of the searches that were made. -/
structure CacheStatistics.Exact (told : CacheStatistics) (searches : List Search) : Prop
    extends Repeating searches where
  total : told.hits + told.misses = searches.length
  hits : told.hits = searches.countP fun search => search.hit
  size : told.size = searches.countP fun search => !search.hit && search.lowered.isOk
  rate : told.hitRate =
    if searches = [] then 0.0
    else Double.ofQuotient false (searches.countP fun search => search.hit) searches.length

/-- How a cache stands to the searches that were made of it since it was empty. -/
structure GraphCache.Records (cache : GraphCache) (searches : List Search) : Prop
    extends Repeating searches where
  hits : cache.hits = searches.countP fun search => search.hit
  misses : cache.misses = searches.countP fun search => !search.hit
  size : cache.size = searches.countP fun search => !search.hit && search.lowered.isOk
  finds : ∀ key graph, cache.find? key = some graph ↔
    ∃ search ∈ searches, search.key.Same key ∧ search.lowered = .ok graph

namespace GraphCache

variable {cache after : GraphCache} {searches : List Search} {search : Search} {graph : Graph}

theorem Records.empty : ({} : GraphCache).Records [] where
  hits := rfl
  misses := rfl
  size := rfl
  finds key graph := by simp [find?]
  repeats earlier search listed := by simp at listed
  identical earlier search listed := by simp at listed
  returned search listed := by simp at listed

/-- The last search, or one before it. -/
theorem prefix_concat {earlier : List Search} {former : Search}
    (listed : earlier ++ [former] <+: searches ++ [search]) :
    earlier = searches ∧ former = search ∨ earlier ++ [former] <+: searches := by
  rcases List.prefix_concat_iff.mp listed with same | before
  · obtain ⟨alike, last⟩ := List.append_inj' same rfl
    exact .inl ⟨alike, List.singleton_inj.mp last⟩
  · exact .inr before

/-- One more search, by what it does to the counters and to what is found. -/
theorem Records.concat (records : cache.Records searches)
    (hits : after.hits = cache.hits + if search.hit then 1 else 0)
    (misses : after.misses = cache.misses + if search.hit then 0 else 1)
    (size : after.size = cache.size + if !search.hit && search.lowered.isOk then 1 else 0)
    (hit : search.hit = (cache.find? search.key).isSome)
    (fetched : ∀ graph, cache.find? search.key = some graph → search.lowered = .ok graph)
    (finds : ∀ key graph, after.find? key = some graph ↔
      cache.find? key = some graph ∨ search.key.Same key ∧ search.lowered = .ok graph)
    (returned : ∀ graph, search.answer = .ok graph → search.lowered = .ok graph) :
    after.Records (searches ++ [search]) where
  hits := by rw [hits, records.hits, List.countP_append, List.countP_singleton]
  misses := by
    rw [misses, records.misses, List.countP_append, List.countP_singleton]
    cases search.hit <;> rfl
  size := by rw [size, records.size, List.countP_append, List.countP_singleton]
  finds key graph := by
    rw [finds, records.finds]
    simp [or_and_right, exists_or]
  repeats earlier former listed := by
    rcases prefix_concat listed with ⟨rfl, rfl⟩ | before
    · rw [hit, Option.isSome_iff_exists]
      simp only [records.finds]
      constructor
      · rintro ⟨graph, other, listed, same, lowered⟩
        exact ⟨other, listed, same, graph, lowered⟩
      · rintro ⟨other, listed, same, graph, lowered⟩
        exact ⟨graph, other, listed, same, lowered⟩
    · exact records.repeats earlier former before
  identical earlier former listed := by
    rcases prefix_concat listed with ⟨rfl, rfl⟩ | before
    · intro other among same graph lowered
      exact fetched graph ((records.finds _ graph).mpr ⟨other, among, same, lowered⟩)
    · exact records.identical earlier former before
  returned other listed := by
    rcases List.mem_append.mp listed with before | last
    · exact records.returned other before
    · obtain rfl := List.mem_singleton.mp last
      exact returned

/-- A graph is found. -/
theorem Records.found (records : cache.Records searches) (found : cache.find? search.key = some graph)
    (lowered : search.lowered = .ok graph) (hit : search.hit = true)
    (returned : ∀ graph, search.answer = .ok graph → search.lowered = .ok graph) :
    ({ cache with hits := cache.hits + 1 } : GraphCache).Records (searches ++ [search]) := by
  refine records.concat ?_ ?_ ?_ ?_ ?_ ?_ returned
  · simp [hit]
  · simp [hit]
  · simp [hit, GraphCache.size]
  · simp [hit, found]
  · intro other again
    rw [lowered, Option.some.inj (found.symm.trans again)]
  · intro sought other
    refine ⟨.inl, ?_⟩
    rintro (earlier | ⟨same, here⟩)
    · exact earlier
    · rw [lowered] at here
      exact (find?_same same).symm.trans (found.trans (congrArg some (Except.ok.inj here)))

/-- No graph is found, and none is lowered. -/
theorem Records.failed {failure : Failure} (records : cache.Records searches)
    (missed : cache.find? search.key = none) (lowered : search.lowered = .error failure)
    (hit : search.hit = false) (returned : ∀ graph, search.answer = .ok graph → search.lowered = .ok graph) :
    ({ cache with misses := cache.misses + 1 } : GraphCache).Records (searches ++ [search]) := by
  refine records.concat ?_ ?_ ?_ ?_ ?_ ?_ returned
  · simp [hit]
  · simp [hit]
  · simp [lowered, GraphCache.size, Except.isOk, Except.toBool]
  · simp [hit, missed]
  · simp [missed]
  · intro sought other
    simp [lowered, find?]

/-- No graph is found, and the one that is lowered is kept. -/
theorem Records.added (records : cache.Records searches) (missed : cache.find? search.key = none)
    (lowered : search.lowered = .ok graph) (hit : search.hit = false)
    (returned : ∀ graph, search.answer = .ok graph → search.lowered = .ok graph) :
    ({ cache with
        misses := cache.misses + 1, entries := (search.key, graph) :: cache.entries } : GraphCache).Records
      (searches ++ [search]) := by
  refine records.concat ?_ ?_ ?_ ?_ ?_ ?_ returned
  · simp [hit]
  · simp [hit]
  · simp [hit, lowered, GraphCache.size, Except.isOk, Except.toBool]
  · simp [hit, missed]
  · simp [missed]
  · intro sought other
    by_cases same : search.key.Same sought
    · have unknown : cache.find? sought = none := (find?_same same).symm.trans missed
      have agrees := CacheKey.agrees_iff_same.mpr same
      rw [lowered, unknown]
      simp [find?, agrees, same]
    · have apart : search.key.agrees sought = false := by
        rwa [Bool.eq_false_iff, ne_eq, CacheKey.agrees_iff_same]
      simp [find?, apart, same]

end GraphCache

namespace Expression

variable {depth : Nat} {expression : Expression} {arguments : List Text} {values : Entries}
  {session after : Session} {cached : Bool} {searches : List Search}

/-- What a call looks for in the cache, if it comes to look. -/
def sought (depth : Nat) (expression : Expression) (arguments : List Text) (values : Entries)
    (session : Session) : Option CacheKey :=
  match expression.simplify depth (bound arguments values) session with
  | some (.ok simplified, after) =>
    match simplified.program.render after.state.heap with
    | .ok text => some (simplified.key arguments text after)
    | .error _ => none
  | _ => none

/-- A call that does not look leaves the cache as it is. -/
theorem lower_quiet {lowered : Except Failure Graph}
    (quiet : cached = false ∨ expression.sought depth arguments values session = none)
    (came : expression.lower depth arguments values cached session = some (lowered, after)) :
    after.cache = session.cache := by
  rw [lower_eq, Work.bind_apply] at came
  rcases simplifies : expression.simplify depth (bound arguments values) session with
    _ | ⟨failure | simplified, between⟩
  · simp [simplifies] at came
  · have kept := simplify_cache simplifies
    simp only [simplifies] at came
    cases came
    exact kept
  · have kept := simplify_cache simplifies
    simp only [simplifies, Work.bind_apply, render_apply] at came
    cases rendered : simplified.program.render between.state.heap with
    | error failure =>
        rw [rendered] at came
        cases came
        exact kept
    | ok text =>
        rcases quiet with rfl | unsought
        · rw [rendered] at came
          cases came
          exact kept
        · simp [sought, simplifies, rendered] at unsought

/-- A call that looks fetches the graph of the simplified expression. -/
theorem lower_sought {key : CacheKey} {lowered : Except Failure Graph}
    (looks : expression.sought depth arguments values session = some key)
    (came : expression.lower depth arguments values true session = some (lowered, after)) :
    ∃ (simplified : Expression) (text : Text) (between : Session), between.cache = session.cache ∧
      simplified.key arguments text between = key ∧
      simplified.fetch arguments text between = (lowered, after) := by
  rw [lower_eq, Work.bind_apply] at came
  rcases simplifies : expression.simplify depth (bound arguments values) session with
    _ | ⟨failure | simplified, between⟩
  · simp [sought, simplifies] at looks
  · simp [sought, simplifies] at looks
  · simp only [simplifies, Work.bind_apply, render_apply] at came
    cases rendered : simplified.program.render between.state.heap with
    | error failure => simp [sought, simplifies, rendered] at looks
    | ok text =>
        rw [rendered] at came
        simp only [sought, simplifies, rendered] at looks
        exact ⟨simplified, text, between, simplify_cache simplifies, Option.some.inj looks, Option.some.inj came⟩

/-- Compiling lowers the expression, and may only fail to write it down then. -/
theorem compile_lowers {answer : Except Failure Graph}
    (came : expression.compile depth arguments values cached session = some (answer, after)) :
    ∃ lowered, expression.lower depth arguments values cached session = some (lowered, after) ∧
      ∀ graph, answer = .ok graph → lowered = .ok graph := by
  rw [compile, Work.bind_apply] at came
  rcases lowers : expression.lower depth arguments values cached session with
    _ | ⟨failure | graph, between⟩
  · simp [lowers] at came
  · simp only [lowers] at came
    cases came
    exact ⟨_, rfl, nofun⟩
  · simp only [lowers, Work.bind_apply, render_apply] at came
    cases rendered : expression.program.render between.state.heap with
    | error failure =>
        rw [rendered] at came
        cases came
        exact ⟨_, rfl, nofun⟩
    | ok text =>
        rw [rendered] at came
        cases came
        exact ⟨_, rfl, fun _ same => same⟩

/-- A search of the cache is recorded as what it does. -/
theorem fetch_records {text : Text} (records : session.cache.Records searches) {search : Search}
    (key : expression.key arguments text session = search.key)
    (fetched : expression.fetch arguments text session = (search.lowered, after))
    (hit : search.hit = decide (after.cache.hits = session.cache.hits + 1))
    (returned : ∀ graph, search.answer = .ok graph → search.lowered = .ok graph) :
    after.cache.Records (searches ++ [search]) := by
  rw [fetch, key] at fetched
  cases found : session.cache.find? search.key with
  | some graph =>
      simp only [found, Prod.mk.injEq] at fetched
      obtain ⟨lowered, rfl⟩ := fetched
      exact records.found found lowered.symm (by simp [hit]) returned
  | none =>
      cases lowers : expression.lowerSimplified session arguments with
      | error failure =>
          simp only [found, lowers, Prod.mk.injEq] at fetched
          obtain ⟨lowered, rfl⟩ := fetched
          exact records.failed found lowered.symm (by simp [hit]) returned
      | ok graph =>
          simp only [found, lowers, Prod.mk.injEq] at fetched
          obtain ⟨lowered, rfl⟩ := fetched
          exact records.added found lowered.symm (by simp [hit]) returned

end Expression

/-- A call for a graph. -/
structure Call where
  depth : Nat
  expression : Expression
  arguments : List Text
  values : Entries
  /-- Whether the graph may come from the cache. -/
  cached : Bool
  /-- Whether the graph is compiled, with the source text of the expression, or lowered only. -/
  compiles : Bool

namespace Call

def lowering (call : Call) : Work Graph :=
  call.expression.lower call.depth call.arguments call.values call.cached

def work (call : Call) : Work Graph :=
  if call.compiles then
    call.expression.compile call.depth call.arguments call.values call.cached
  else call.lowering

/-- The search that a call makes on its way from one session to another, if it simplifies and writes down
the expression. -/
def search? (call : Call) (session : Session) (answer : Except Failure Graph) (after : Session) :
    Option Search :=
  match call.cached, call.expression.sought call.depth call.arguments call.values session,
      call.lowering session with
  | true, some key, some (lowered, _) =>
    some ⟨key, lowered, answer, after.cache.hits = session.cache.hits + 1⟩
  | _, _, _ => none

variable {call : Call} {session after : Session} {answer : Except Failure Graph} {searches : List Search}

/-- A call does what its lowering does. -/
theorem lowers (came : call.work session = some (answer, after)) :
    ∃ lowered, call.lowering session = some (lowered, after) ∧
      ∀ graph, answer = .ok graph → lowered = .ok graph := by
  unfold work at came
  split at came
  · exact Expression.compile_lowers came
  · exact ⟨answer, came, fun _ same => same⟩

/-- After a call, its search is on the record. -/
theorem records (kept : session.cache.Records searches) (came : call.work session = some (answer, after)) :
    after.cache.Records (searches ++ (call.search? session answer after).toList) := by
  obtain ⟨lowered, lowers, returned⟩ := call.lowers came
  cases cached : call.cached with
  | false =>
      have same := Expression.lower_quiet (.inl cached) lowers
      simpa [search?, cached, same] using kept
  | true =>
      cases looks : call.expression.sought call.depth call.arguments call.values session with
      | none =>
          have same := Expression.lower_quiet (.inr looks) lowers
          simpa [search?, looks, same] using kept
      | some key =>
          simp only [search?, cached, looks, lowers, Option.toList_some]
          rw [lowering, cached] at lowers
          obtain ⟨simplified, text, between, same, keyed, fetched⟩ := Expression.lower_sought looks lowers
          have counted := same ▸ kept
          exact Expression.fetch_records counted keyed fetched (by rw [same]) returned

end Call

/-- What a history is made of. -/
inductive Act where
  | call (call : Call)
  /-- The statistics are read, and the cache may be emptied. -/
  | read (reset : Bool)
  /-- Anything else: an evaluation, a definition or a change of the tables. -/
  | change (change : State → State)

/-- A session with the searches of its cache since the last reset, in their order. -/
structure Ledger where
  session : Session
  searches : List Search

namespace Ledger

def act (ledger : Ledger) : Act → Option Ledger
  | .call call =>
    (call.work ledger.session).map fun (answer, after) =>
      ⟨after, ledger.searches ++ (call.search? ledger.session answer after).toList⟩
  | .read reset =>
    some ⟨(ledger.session.statistics reset).2, if reset then [] else ledger.searches⟩
  | .change change =>
    some ⟨{ ledger.session with state := change ledger.session.state }, ledger.searches⟩

/-- The ledger after a history, if every call in it comes to an end. -/
def replay (ledger : Ledger) : List Act → Option Ledger
  | [] => some ledger
  | act :: rest => (ledger.act act).bind fun after => after.replay rest

variable {ledger after : Ledger}

theorem act_records {act : Act} (kept : ledger.session.cache.Records ledger.searches)
    (came : ledger.act act = some after) : after.session.cache.Records after.searches := by
  cases act with
  | call call =>
      obtain ⟨⟨answer, session⟩, works, rfl⟩ := Option.map_eq_some_iff.mp came
      exact call.records kept works
  | read reset =>
      cases came
      cases reset with
      | false => exact kept
      | true => exact .empty
  | change change =>
      cases came
      exact kept

theorem replay_records {acts : List Act} (kept : ledger.session.cache.Records ledger.searches)
    (came : ledger.replay acts = some after) : after.session.cache.Records after.searches := by
  induction acts generalizing ledger with
  | nil =>
      cases came
      exact kept
  | cons act rest ih =>
      obtain ⟨between, acts, replayed⟩ := Option.bind_eq_some_iff.mp came
      exact ih (act_records kept acts) replayed

end Ledger

namespace GraphCache.Records

variable {cache : GraphCache} {searches : List Search}

/-- Every search was a hit or a miss. -/
theorem total (records : cache.Records searches) : cache.hits + cache.misses = searches.length := by
  rw [records.hits, records.misses, List.length_eq_countP_add_countP fun search : Search => search.hit]
  simp only [Bool.not_eq_true, Bool.decide_eq_false]

theorem exact (records : cache.Records searches) : cache.statistics.Exact searches where
  toRepeating := records.toRepeating
  total := records.total
  hits := records.hits
  size := records.size
  rate := by
    rw [statistics, hitRate, records.total, records.hits]
    simp only [List.length_eq_zero_iff]

end GraphCache.Records

/-- After every history of calls, reads and changes, the statistics are exact for the searches since the
last reset, whether they are read with a reset or without. A call that compiles counts as the lowering
that it makes. -/
theorem Session.statistics_exact {session : Session} {acts : List Act} {ledger : Ledger}
    (fresh : session.cache = {}) (replayed : Ledger.replay ⟨session, []⟩ acts = some ledger) (reset : Bool) :
    (ledger.session.statistics reset).1.Exact ledger.searches := by
  have kept : session.cache.Records [] := fresh ▸ .empty
  exact (Ledger.replay_records kept replayed).exact

/-- A name is lowered, compiled, lowered without the cache, and fails to be lowered for want of an
argument; all of this follows a reset. -/
theorem Session.statistics_exact_of_name :
    let name : Expression := ⟨[.name (Text.ofString "x")], 0⟩
    let lowers (arguments : List Text) (cached compiles : Bool) : Act :=
      .call ⟨0, name, arguments, [], cached, compiles⟩
    let arguments := [Text.ofString "x"]
    ∃ ledger, Ledger.replay ⟨{}, []⟩ [lowers arguments true false, .read true, lowers arguments true false,
        .change id, lowers arguments true true, lowers arguments false false, lowers [] true false] =
          some ledger ∧
      ledger.searches.map (·.hit) = [false, true, false] ∧
      (ledger.session.statistics false).1.size = 1 ∧
      (ledger.session.statistics false).1.Exact ledger.searches := by
  intro name lowers arguments
  obtain ⟨ledger, replayed, told⟩ := (Option.any_eq_true _ _).mp (by decide +kernel :
    (Ledger.replay ⟨{}, []⟩ [lowers arguments true false, .read true, lowers arguments true false, .change id,
      lowers arguments true true, lowers arguments false false, lowers [] true false]).any
        (fun ledger => decide (ledger.searches.map (·.hit) = [false, true, false] ∧
          (ledger.session.statistics false).1.size = 1)) = true)
  obtain ⟨hits, size⟩ := of_decide_eq_true told
  exact ⟨ledger, replayed, hits, size, statistics_exact rfl replayed false⟩

end Formula
