import MaestroCore.HttpRequest

/-!
# Request Lines and Their Parameters

`http_parser_first_line` on request lines that others have written. The loop over the
parameters looks for the next `=` first, and for the next `&` only behind it, so a component
without `=` is taken for the beginning of the next key. `params_count` is an `int` that counts
the parameters.

## Main results

* `firstLine_text`: the parts of a written request line.
* `paramsLoop_eq_iff`: when the loop takes the components of the query.
* `request_line_read_back_iff`: the pairs are read back iff their number is an `int`.
* `query_components_iff`: when the parameters are those of the components.
-/

open CLang

namespace MaestroCore

/-! ### The number of parameters -/

/-- The `int` that counts the parameters overflows. -/
inductive RequestFault
  | paramsCount
  deriving DecidableEq, Repr

/-- `_Req->params_count++`. -/
def countParam (count : ℤ) : Except RequestFault ℤ :=
  if count < intMax then .ok (count + 1) else .error .paramsCount

/-- The fields of `HTTP_Request` that `http_parser_first_line` sets. -/
structure HTTPRequestFields extends HTTPRequestLine where
  paramsCount : ℤ
  deriving DecidableEq, Repr

/-- `http_parser_first_line` on a request full of zeros, with the counter that its loop
increments after each parameter. -/
def httpParserFirstLineCounted (line : Bytes) :
    Except RequestFault (Except ErrorCode HTTPRequestFields) :=
  match httpParserFirstLine line with
  | .error e => .ok (.error e)
  | .ok request => do
      let count ← (request.params.getD []).foldlM (fun count _ => countParam count) 0
      .ok (.ok ⟨request, count⟩)

/-- Pairs are counted as long as the count is an `int`. -/
theorem foldlM_countParam (params : List HTTPKeyValue) {count : ℤ} (h : count ≤ intMax) :
    params.foldlM (fun count _ => countParam count) count =
      if count + params.length ≤ intMax then .ok (count + params.length)
      else .error .paramsCount := by
  induction params generalizing count with
  | nil => simp [h, pure, Except.pure]
  | cons kv params ih =>
      rw [List.foldlM_cons, countParam, List.length_cons]
      push_cast
      by_cases hlt : count < intMax
      · simp only [if_pos hlt, bind, Except.bind]
        rw [ih (by omega), add_assoc, add_comm 1]
      · rw [if_neg hlt, if_neg (by omega)]
        rfl

/-! ### Written request lines -/

/-- A method, a path and a version that can stand in a request line. -/
structure RequestLine where
  method : Bytes
  path : Bytes
  version : Bytes
  method_plain : ∀ b ∈ method, b ≠ 32 ∧ b ≠ 0
  path_plain : ∀ b ∈ path, b ≠ 32 ∧ b ≠ 63 ∧ b ≠ 0
  version_nonempty : version ≠ []
  version_plain : ∀ b ∈ version, b ≠ 0

/-- The request line, with a query or without one. -/
def RequestLine.text (r : RequestLine) : Option Bytes → Bytes
  | none => r.method ++ 32 :: (r.path ++ 32 :: r.version)
  | some query => r.method ++ 32 :: (r.path ++ 63 :: query ++ 32 :: r.version)

/-- What is to be read of it. -/
def RequestLine.read (r : RequestLine) (params : Option (List HTTPKeyValue)) :
    HTTPRequestLine :=
  ⟨r.method, r.path, r.version, httpMethodStringToEnum r.method, params⟩

/-- The bytes of a query: no space and no NUL. -/
def QueryPlain (query : Bytes) : Prop := ∀ b ∈ query, b ≠ 32 ∧ b ≠ 0

section Text

variable {r : RequestLine} {query : Bytes}

/-- A method has no space. -/
theorem RequestLine.method_space (r : RequestLine) : 32 ∉ r.method :=
  fun h => (r.method_plain 32 h).1 rfl

/-- The line is cut at its first two spaces. -/
theorem firstLine_target {target : Bytes} (hspace : 32 ∉ target) (hnul : ∀ b ∈ target, b ≠ 0) :
    httpParserFirstLine (r.method ++ 32 :: (target ++ 32 :: r.version)) =
      match strchr 63 target with
      | none => .ok ⟨r.method, target, r.version, httpMethodStringToEnum r.method, none⟩
      | some (path, query) =>
          .ok ⟨r.method, path, r.version, httpMethodStringToEnum r.method,
            some (httpParserParamsLoop query.length query [])⟩ := by
  have hcstr : cstr (r.method ++ 32 :: (target ++ 32 :: r.version)) =
      r.method ++ 32 :: (target ++ 32 :: r.version) := by
    refine cstr_eq_self fun b hb => ?_
    rcases List.mem_append.mp hb with hb | hb
    · exact (r.method_plain b hb).2
    · rcases List.mem_cons.mp hb with rfl | hb
      · decide
      · rcases List.mem_append.mp hb with hb | hb
        · exact hnul b hb
        · rcases List.mem_cons.mp hb with rfl | hb
          · decide
          · exact r.version_plain b hb
  rw [httpParserFirstLine, if_neg (by simp), hcstr, strchr_append r.method_space]
  simp only
  rw [strchr_append hspace]
  exact if_neg r.version_nonempty

/-- A request line without a query is read back. -/
theorem firstLine_text_none : httpParserFirstLine (r.text none) = .ok (r.read none) := by
  have hquery : strchr 63 r.path = none :=
    strchr_eq_none_iff.mpr fun h => (r.path_plain 63 h).2.1 rfl
  rw [RequestLine.text, firstLine_target (fun h => (r.path_plain 32 h).1 rfl)
    fun b hb => (r.path_plain b hb).2.2, hquery]
  rfl

/-- **The parts of a written request line.** -/
theorem firstLine_text (hquery : QueryPlain query) :
    httpParserFirstLine (r.text (some query)) =
      .ok (r.read (some (httpParserParamsLoop query.length query []))) := by
  have hplain : ∀ b ∈ r.path ++ 63 :: query, b ≠ 32 ∧ b ≠ 0 := by
    intro b hb
    rcases List.mem_append.mp hb with hb | hb
    · exact ⟨(r.path_plain b hb).1, (r.path_plain b hb).2.2⟩
    · rcases List.mem_cons.mp hb with rfl | hb
      · decide
      · exact hquery b hb
  rw [RequestLine.text, firstLine_target (fun h => (hplain 32 h).1 rfl) fun b hb => (hplain b hb).2,
    strchr_append fun h => (r.path_plain 63 h).2.1 rfl]
  rfl

/-- **The parameters of a request line** are those of the loop, unless an `int` does not count
them. -/
theorem firstLineCounted_query (hquery : QueryPlain query) :
    httpParserFirstLineCounted (r.text (some query)) =
      if (httpParserParamsLoop query.length query []).length < 2 ^ 31 then
        .ok (.ok ⟨r.read (some (httpParserParamsLoop query.length query [])),
          (httpParserParamsLoop query.length query []).length⟩)
      else .error .paramsCount := by
  rw [httpParserFirstLineCounted, firstLine_text hquery]
  simp only [RequestLine.read, Option.getD_some]
  generalize httpParserParamsLoop query.length query [] = params
  rw [foldlM_countParam params (by rw [intMax]; omega), zero_add]
  by_cases hlt : params.length < 2 ^ 31
  · rw [if_pos (by rw [intMax]; omega), if_pos hlt]
    rfl
  · rw [if_neg (by rw [intMax]; omega), if_neg hlt]
    rfl

end Text

/-! ### Components -/

/-- The parameters of a query: it is cut at every `&`, and each component that contains `=` at
its first one. -/
def componentParams (query : Bytes) : List HTTPKeyValue :=
  (query.splitOn 38).filterMap fun component =>
    (strchr 61 component).map fun kv => ⟨kv.1, kv.2⟩

/-- No component without `=` stands before one with it. -/
def ValuesFirst (query : Bytes) : Prop :=
  (query.splitOn 38).Pairwise fun component later => 61 ∈ later → 61 ∈ component

/-- The number of the components with `=`. -/
def valuedComponents (query : Bytes) : ℕ := (query.splitOn 38).countP (61 ∈ ·)

/-- There are as many pairs as components with a value. -/
theorem length_componentParams (query : Bytes) :
    (componentParams query).length = valuedComponents query := by
  rw [componentParams, List.length_filterMap_eq_countP, valuedComponents]
  refine List.countP_congr fun component _ => ?_
  rw [Option.isSome_map, Option.isSome_iff_ne_none, decide_eq_true_eq, Ne, strchr_eq_none_iff,
    not_not]

/-- A parameter as text. -/
def pairText (kv : HTTPKeyValue) : Bytes := kv.key ++ 61 :: kv.value

/-- The text of a pair is split at its first `=`. -/
theorem strchr_pairText {kv : HTTPKeyValue} (hkey : 61 ∉ kv.key) :
    (strchr 61 (pairText kv)).map (fun p => (⟨p.1, p.2⟩ : HTTPKeyValue)) = some kv := by
  rw [pairText, strchr_append hkey]
  rfl

/-- The pairs of a query, with those of its first component apart. -/
theorem componentParams_cons {component : Bytes} (h : 38 ∉ component) (later : Bytes) :
    componentParams (component ++ 38 :: later) =
      ((strchr 61 component).map fun kv => ⟨kv.1, kv.2⟩).toList ++ componentParams later := by
  rw [componentParams, List.splitOn_append_cons_self_of_not_mem h, List.filterMap_cons]
  cases strchr 61 component <;> rfl

/-- The pairs of a query of one component. -/
theorem componentParams_single {component : Bytes} (h : 38 ∉ component) :
    componentParams component = ((strchr 61 component).map fun kv => ⟨kv.1, kv.2⟩).toList := by
  rw [componentParams, List.splitOn_eq_singleton h, List.filterMap_cons]
  cases strchr 61 component <;> rfl

/-! ### The loop and the components -/

/-- A component is a part of its query without a separator. -/
theorem mem_splitOn {a : UInt8} {query component : Bytes} (h : component ∈ query.splitOn a) :
    a ∉ component ∧ component ⊆ query := by
  induction query generalizing component with
  | nil =>
      rw [List.splitOn_nil, List.mem_singleton] at h
      rw [h]
      exact ⟨List.not_mem_nil, List.Subset.refl _⟩
  | cons b query ih =>
      rw [List.splitOn_cons_eq_if_modifyHead] at h
      split at h
      · rcases List.mem_cons.mp h with rfl | h
        · exact ⟨List.not_mem_nil, List.nil_subset _⟩
        · exact ⟨(ih h).1, List.subset_cons_of_subset _ (ih h).2⟩
      · rename_i hb
        obtain ⟨first, others, hsplit⟩ := List.exists_cons_of_ne_nil (List.splitOn_ne_nil a query)
        rw [hsplit, List.modifyHead_cons] at h
        rw [hsplit] at ih
        rcases List.mem_cons.mp h with rfl | h
        · obtain ⟨hfirst, hsub⟩ := ih List.mem_cons_self
          refine ⟨?_, List.cons_subset_cons b hsub⟩
          rw [List.mem_cons, not_or]
          exact ⟨fun heq => hb (by simp [heq]), hfirst⟩
        · obtain ⟨hother, hsub⟩ := ih (List.mem_cons_of_mem _ h)
          exact ⟨hother, List.subset_cons_of_subset _ hsub⟩

/-- Every other byte of a query is in one of its components. -/
theorem exists_mem_splitOn {a b : UInt8} {query : Bytes} (h : b ∈ query) (hne : b ≠ a) :
    ∃ component ∈ query.splitOn a, b ∈ component := by
  by_contra hnone
  have hcomponents : ∀ component ∈ query.splitOn a, b ∉ component := fun component hmem hb =>
    hnone ⟨component, hmem, hb⟩
  have hjoined : b ∉ [a].intercalate (query.splitOn a) := by
    generalize query.splitOn a = components at hcomponents
    induction components with
    | nil => exact List.not_mem_nil
    | cons first others ih =>
        have hothers := ih fun component hmem => hcomponents _ (List.mem_cons_of_mem _ hmem)
        cases others with
        | nil =>
            rw [List.intercalate_singleton]
            exact hcomponents first List.mem_cons_self
        | cons second others =>
            rw [List.intercalate_cons_cons, List.mem_append, List.mem_append, List.mem_singleton]
            simp only [not_or]
            exact ⟨⟨hcomponents first List.mem_cons_self, hne⟩, hothers⟩
  rw [List.intercalate_splitOn] at hjoined
  exact hjoined h

/-- A pair comes from a component that writes it. -/
theorem mem_componentParams {query : Bytes} {kv : HTTPKeyValue} :
    kv ∈ componentParams query ↔ ∃ component ∈ query.splitOn 38,
      component = pairText kv ∧ 61 ∉ kv.key := by
  rw [componentParams, List.mem_filterMap]
  refine exists_congr fun component => and_congr_right fun _ => ?_
  rw [Option.map_eq_some_iff]
  constructor
  · rintro ⟨⟨key, value⟩, hsplit, rfl⟩
    exact strchr_eq_some_iff.mp hsplit
  · rintro ⟨rfl, hkey⟩
    exact ⟨(kv.key, kv.value), strchr_append hkey _, rfl⟩

/-- No key of a component has a separator. -/
theorem amp_notMem_key {query : Bytes} {kv : HTTPKeyValue} (h : kv ∈ componentParams query) :
    38 ∉ kv.key := by
  obtain ⟨component, hmem, rfl, -⟩ := mem_componentParams.mp h
  exact fun hkey => (mem_splitOn hmem).1 (List.mem_append_left _ hkey)

/-- The loop adds its pairs to those that are there. -/
theorem paramsLoop_append (fuel : ℕ) (query : Bytes) (params : List HTTPKeyValue) :
    httpParserParamsLoop fuel query params = params ++ httpParserParamsLoop fuel query [] := by
  induction fuel generalizing query params with
  | zero => rw [httpParserParamsLoop, httpParserParamsLoop, List.append_nil]
  | succ fuel ih =>
      rw [httpParserParamsLoop, httpParserParamsLoop]
      split
      · rw [List.append_nil]
      · split
        · rfl
        · rename_i value later _
          rw [ih later (params ++ _), ih later ([] ++ _), List.append_assoc, List.nil_append]

/-- Without `=` there is no parameter. -/
theorem paramsLoop_of_no_eq {fuel : ℕ} {query : Bytes} (h : strchr 61 query = none) :
    httpParserParamsLoop fuel query [] = [] := by
  cases fuel with
  | zero => rfl
  | succ fuel => rw [httpParserParamsLoop, h]

/-- A query without `=` has no pairs. -/
theorem componentParams_of_no_eq {query : Bytes} (h : strchr 61 query = none) :
    componentParams query = [] ∧ ValuesFirst query := by
  have hnone : ∀ component ∈ query.splitOn 38, 61 ∉ component := fun component hmem heq =>
    strchr_eq_none_iff.mp h ((mem_splitOn hmem).2 heq)
  constructor
  · rw [componentParams, List.filterMap_eq_nil_iff]
    intro component hmem
    rw [strchr_eq_none_iff.mpr (hnone component hmem)]
    rfl
  · exact List.pairwise_of_forall_mem_list fun component _ later hlater heq =>
      absurd heq (hnone later hlater)

/-- A key that reaches over a component without `=`. -/
theorem paramsLoop_of_amp_mem (fuel : ℕ) {key : Bytes} (rest : Bytes) (hkey : 61 ∉ key)
    (hamp : 38 ∈ key) :
    httpParserParamsLoop (fuel + 1) (key ++ 61 :: rest) [] ≠ componentParams (key ++ 61 :: rest) ∧
      ¬ ValuesFirst (key ++ 61 :: rest) := by
  constructor
  · intro heq
    obtain ⟨value, hmem⟩ : ∃ value, (⟨key, value⟩ : HTTPKeyValue) ∈
        httpParserParamsLoop (fuel + 1) (key ++ 61 :: rest) [] := by
      rw [httpParserParamsLoop, strchr_append hkey]
      simp only
      split
      · exact ⟨_, List.mem_append_right _ List.mem_cons_self⟩
      · rw [paramsLoop_append]
        exact ⟨_, List.mem_append_left _ (List.mem_append_right _ List.mem_cons_self)⟩
    rw [heq] at hmem
    exact amp_notMem_key hmem hamp
  · intro hvalues
    obtain ⟨⟨component, later⟩, hsplit⟩ : ∃ p, strchr 38 key = some p :=
      Option.ne_none_iff_exists'.mp fun hnone => strchr_eq_none_iff.mp hnone hamp
    obtain ⟨rfl, hcomponent⟩ := strchr_eq_some_iff.mp hsplit
    rw [ValuesFirst, List.append_assoc, List.cons_append,
      List.splitOn_append_cons_self_of_not_mem hcomponent, List.pairwise_cons] at hvalues
    have hlater : (61 : UInt8) ∈ later ++ 61 :: rest := by simp
    obtain ⟨other, hmem, heq⟩ := exists_mem_splitOn hlater (show (61 : UInt8) ≠ 38 by decide)
    exact hkey (List.mem_append_left _ (hvalues.1 other hmem heq))

/-- A pair without `&` in its parts has none. -/
theorem amp_notMem_pair {key value : Bytes} (hkey : 38 ∉ key) (hvalue : 38 ∉ value) :
    38 ∉ key ++ 61 :: value := by
  rw [List.mem_append, List.mem_cons, not_or, not_or]
  exact ⟨hkey, by decide, hvalue⟩

/-- A component with `=`, and the components after it. -/
theorem paramsLoop_pair (fuel : ℕ) {key value : Bytes} (heq : 61 ∉ key) (hkey : 38 ∉ key)
    (hvalue : 38 ∉ value) (later : Bytes) :
    httpParserParamsLoop (fuel + 1) ((key ++ 61 :: value) ++ 38 :: later) [] =
        ⟨key, value⟩ :: httpParserParamsLoop fuel later [] ∧
      componentParams ((key ++ 61 :: value) ++ 38 :: later) =
        ⟨key, value⟩ :: componentParams later ∧
      (ValuesFirst ((key ++ 61 :: value) ++ 38 :: later) ↔ ValuesFirst later) := by
  have hcomponent := amp_notMem_pair hkey hvalue
  refine ⟨?_, ?_, ?_⟩
  · rw [httpParserParamsLoop, List.append_assoc, List.cons_append, strchr_append heq]
    simp only
    rw [strchr_append hvalue]
    simp only
    rw [paramsLoop_append]
    rfl
  · rw [componentParams_cons hcomponent, strchr_append heq]
    rfl
  · rw [ValuesFirst, List.splitOn_append_cons_self_of_not_mem hcomponent, List.pairwise_cons]
    exact and_iff_right fun _ _ _ => by simp

/-- The last component. -/
theorem paramsLoop_last (fuel : ℕ) {key value : Bytes} (heq : 61 ∉ key) (hkey : 38 ∉ key)
    (hvalue : 38 ∉ value) :
    httpParserParamsLoop (fuel + 1) (key ++ 61 :: value) [] = [⟨key, value⟩] ∧
      componentParams (key ++ 61 :: value) = [⟨key, value⟩] ∧ ValuesFirst (key ++ 61 :: value) := by
  have hcomponent := amp_notMem_pair hkey hvalue
  refine ⟨?_, ?_, ?_⟩
  · rw [httpParserParamsLoop, strchr_append heq]
    simp only
    rw [strchr_eq_none_iff.mpr hvalue]
    rfl
  · rw [componentParams_single hcomponent, strchr_append heq]
    rfl
  · rw [ValuesFirst, List.splitOn_eq_singleton hcomponent]
    exact List.pairwise_singleton _ _

/-- **When the loop takes the components**: when no component without `=` stands before one with
it. -/
theorem paramsLoop_eq_iff {fuel : ℕ} {query : Bytes} (hfuel : query.length ≤ fuel) :
    httpParserParamsLoop fuel query [] = componentParams query ↔ ValuesFirst query := by
  induction fuel generalizing query with
  | zero =>
      obtain rfl : query = [] := List.length_eq_zero_iff.mp (by omega)
      exact iff_of_true rfl (List.pairwise_singleton _ _)
  | succ fuel ih =>
      cases hfirst : strchr 61 query with
      | none =>
          obtain ⟨hempty, hvalues⟩ := componentParams_of_no_eq hfirst
          exact iff_of_true ((paramsLoop_of_no_eq hfirst).trans hempty.symm) hvalues
      | some split =>
          obtain ⟨key, rest⟩ := split
          obtain ⟨rfl, heq⟩ := strchr_eq_some_iff.mp hfirst
          by_cases hamp : 38 ∈ key
          · obtain ⟨hloop, hvalues⟩ := paramsLoop_of_amp_mem fuel rest heq hamp
            exact iff_of_false hloop hvalues
          · cases hrest : strchr 38 rest with
            | none =>
                obtain ⟨hloop, hcomponents, hvalues⟩ :=
                  paramsLoop_last fuel heq hamp (strchr_eq_none_iff.mp hrest)
                exact iff_of_true (hloop.trans hcomponents.symm) hvalues
            | some split =>
                obtain ⟨value, later⟩ := split
                obtain ⟨rfl, hvalue⟩ := strchr_eq_some_iff.mp hrest
                have hquery : key ++ 61 :: (value ++ 38 :: later) =
                    (key ++ 61 :: value) ++ 38 :: later := by simp
                have hlater : later.length ≤ fuel := by
                  simp only [List.length_append, List.length_cons] at hfuel
                  omega
                obtain ⟨hloop, hcomponents, hvalues⟩ :=
                  paramsLoop_pair fuel heq hamp hvalue later
                rw [hquery, hloop, hcomponents, hvalues, ← ih hlater]
                exact ⟨fun h => (List.cons.inj h).2, fun h => by rw [h]⟩

/-! ### Reading the pairs back -/

/-- Pairs as they are written in a query. -/
def queryText (pairs : List HTTPKeyValue) : Bytes := [38].intercalate (pairs.map pairText)

/-- A key and a value that can be written in a query as they are. -/
def PairPlain (kv : HTTPKeyValue) : Prop :=
  (∀ b ∈ kv.key, b ≠ 61 ∧ b ≠ 38 ∧ b ≠ 32 ∧ b ≠ 0) ∧ ∀ b ∈ kv.value, b ≠ 38 ∧ b ≠ 32 ∧ b ≠ 0

/-- The request line is read back, with the pairs as its query and without a query. -/
def LineReadBack (r : RequestLine) (pairs : List HTTPKeyValue) : Prop :=
  httpParserFirstLineCounted (r.text (some (queryText pairs))) =
      .ok (.ok ⟨r.read (some pairs), pairs.length⟩) ∧
    httpParserFirstLineCounted (r.text none) = .ok (.ok ⟨r.read none, 0⟩)

/-- The text of a plain pair has no `&`. -/
theorem PairPlain.amp_notMem {kv : HTTPKeyValue} (h : PairPlain kv) : 38 ∉ pairText kv :=
  amp_notMem_pair (fun hmem => (h.1 38 hmem).2.1 rfl) fun hmem => (h.2 38 hmem).1 rfl

section Pairs

variable {pairs : List HTTPKeyValue}

/-- The components of a written query are its pairs. -/
theorem splitOn_queryText (hpairs : ∀ kv ∈ pairs, PairPlain kv) (hne : pairs ≠ []) :
    (queryText pairs).splitOn 38 = pairs.map pairText := by
  refine List.splitOn_intercalate 38 (fun component hmem => ?_) (by simpa using hne)
  obtain ⟨kv, hkv, rfl⟩ := List.mem_map.mp hmem
  exact (hpairs kv hkv).amp_notMem

/-- A query of plain pairs is plain. -/
theorem queryText_plain (hpairs : ∀ kv ∈ pairs, PairPlain kv) : QueryPlain (queryText pairs) := by
  intro b hb
  by_cases hamp : b = 38
  · rw [hamp]
    decide
  · obtain ⟨component, hmem, hcomponent⟩ := exists_mem_splitOn hb hamp
    cases pairs with
    | nil => exact absurd hb List.not_mem_nil
    | cons first others =>
        rw [splitOn_queryText hpairs (by simp)] at hmem
        obtain ⟨kv, hkv, rfl⟩ := List.mem_map.mp hmem
        rcases List.mem_append.mp hcomponent with hkey | hvalue
        · exact ((hpairs kv hkv).1 b hkey).2.2
        · rcases List.mem_cons.mp hvalue with rfl | hvalue
          · decide
          · exact ((hpairs kv hkv).2 b hvalue).2

/-- **The loop reads the pairs back.** -/
theorem paramsLoop_queryText (hpairs : ∀ kv ∈ pairs, PairPlain kv) :
    httpParserParamsLoop (queryText pairs).length (queryText pairs) [] = pairs := by
  by_cases hne : pairs = []
  · rw [hne]
    rfl
  · have hsplit := splitOn_queryText hpairs hne
    have hvalues : ValuesFirst (queryText pairs) := by
      rw [ValuesFirst, hsplit]
      refine List.pairwise_of_forall_mem_list fun component hmem later _ _ => ?_
      obtain ⟨kv, -, rfl⟩ := List.mem_map.mp hmem
      simp [pairText]
    rw [(paramsLoop_eq_iff (le_refl _)).mpr hvalues, componentParams, hsplit, List.filterMap_map]
    have hread : ∀ kv ∈ pairs, ((fun component => (strchr 61 component).map fun p =>
        (⟨p.1, p.2⟩ : HTTPKeyValue)) ∘ pairText) kv = some kv := fun kv hkv =>
      strchr_pairText fun hmem => ((hpairs kv hkv).1 61 hmem).1 rfl
    rw [List.filterMap_congr hread, List.filterMap_some]

/-- What the parser makes of a written line: an overflow, when there are too many pairs. -/
theorem firstLineCounted_text (r : RequestLine) (hpairs : ∀ kv ∈ pairs, PairPlain kv) :
    httpParserFirstLineCounted (r.text (some (queryText pairs))) =
      if pairs.length < 2 ^ 31 then .ok (.ok ⟨r.read (some pairs), pairs.length⟩)
      else .error .paramsCount := by
  rw [firstLineCounted_query (queryText_plain hpairs), paramsLoop_queryText hpairs]

/-- What is read back has as many pairs as an `int` counts. -/
theorem lineReadBack_length (r : RequestLine) (hpairs : ∀ kv ∈ pairs, PairPlain kv)
    (h : LineReadBack r pairs) : pairs.length < 2 ^ 31 := by
  by_contra hge
  have hline := h.1
  rw [firstLineCounted_text r hpairs, if_neg hge] at hline
  cases hline

/-- **When the request line is read back.** For every method, path and version, and all pairs
that can be written in a query: the method, the path, the pairs in their order, their number and
the version are read back, and without a query there are no parameters, iff there are fewer than
`2 ^ 31` pairs. -/
theorem request_line_read_back_iff (r : RequestLine) (pairs : List HTTPKeyValue)
    (hpairs : ∀ kv ∈ pairs, PairPlain kv) : LineReadBack r pairs ↔ pairs.length < 2 ^ 31 := by
  refine ⟨lineReadBack_length r hpairs, fun hlt => ⟨?_, ?_⟩⟩
  · rw [firstLineCounted_text r hpairs, if_pos hlt]
  · rw [httpParserFirstLineCounted, firstLine_text_none]
    rfl

end Pairs

/-- `GET /a HTTP/1.1`, with a query or without one. -/
def getLine : RequestLine where
  method := ascii "GET"
  path := ascii "/a"
  version := ascii "HTTP/1.1"
  method_plain := by decide
  path_plain := by decide
  version_nonempty := by decide
  version_plain := by decide

/-- A value with `=`, an empty value, and an empty key. -/
theorem three_pairs_read_back :
    httpParserFirstLineCounted (ascii "GET /a?x=1=2&y=&=? HTTP/1.1") =
      .ok (.ok ⟨⟨ascii "GET", ascii "/a", ascii "HTTP/1.1", .get,
        some [⟨ascii "x", ascii "1=2"⟩, ⟨ascii "y", []⟩, ⟨[], ascii "?"⟩]⟩, 3⟩) := by
  have hpairs : ∀ kv ∈ ([⟨ascii "x", ascii "1=2"⟩, ⟨ascii "y", []⟩, ⟨[], ascii "?"⟩] :
      List HTTPKeyValue), PairPlain kv := by
    simp only [PairPlain]
    decide
  have htext : getLine.text (some (queryText
      [⟨ascii "x", ascii "1=2"⟩, ⟨ascii "y", []⟩, ⟨[], ascii "?"⟩])) =
      ascii "GET /a?x=1=2&y=&=? HTTP/1.1" := by decide
  have hread := ((request_line_read_back_iff getLine _ hpairs).mpr (by simp)).1
  rw [htext] at hread
  exact hread

/-- So many empty pairs that an `int` cannot count them. -/
theorem countless_pairs_lost :
    ¬ LineReadBack getLine (List.replicate (2 ^ 31) ⟨[], []⟩) ∧
    httpParserFirstLineCounted (getLine.text (some (queryText
      (List.replicate (2 ^ 31) ⟨[], []⟩)))) = .error .paramsCount := by
  have hpairs : ∀ kv ∈ List.replicate (2 ^ 31) (⟨[], []⟩ : HTTPKeyValue), PairPlain kv := by
    intro kv hkv
    rw [List.eq_of_mem_replicate hkv]
    exact ⟨fun b hb => absurd hb List.not_mem_nil, fun b hb => absurd hb List.not_mem_nil⟩
  constructor
  · intro h
    have hlt := lineReadBack_length getLine hpairs h
    rw [List.length_replicate] at hlt
    exact lt_irrefl _ hlt
  · rw [firstLineCounted_text getLine hpairs, List.length_replicate, if_neg (lt_irrefl _)]

/-! ### Queries of any form -/

/-- The parameters are those of the components: none of their keys has a separator, and no
component with `=` is lost. -/
def TakesComponents (r : RequestLine) (query : Bytes) : Prop :=
  ∃ params, httpParserFirstLineCounted (r.text (some query)) =
      .ok (.ok ⟨r.read (some params), params.length⟩) ∧
    params = componentParams query ∧ (∀ kv ∈ params, 38 ∉ kv.key) ∧
    ∀ component ∈ query.splitOn 38, 61 ∈ component → ∃ kv ∈ params, component = pairText kv

/-- **When the parameters are those of the components.** For every query, the parameters are
what cutting it at every `&` and each component with `=` at its first `=` gives, iff no
component without `=` stands before one with it and an `int` counts those with it. -/
theorem query_components_iff (r : RequestLine) (query : Bytes) (hquery : QueryPlain query) :
    TakesComponents r query ↔ ValuesFirst query ∧ valuedComponents query < 2 ^ 31 := by
  have hline : httpParserFirstLineCounted (r.text (some query)) = _ :=
    firstLineCounted_query hquery
  have hloop := paramsLoop_eq_iff (le_refl query.length)
  generalize httpParserParamsLoop query.length query [] = params at hline hloop
  rw [← length_componentParams, ← hloop]
  constructor
  · rintro ⟨params', hparams, hcomponents, -⟩
    rw [hline] at hparams
    split at hparams
    · rename_i hlt
      have hread := congrArg (·.params) (Except.ok.inj (Except.ok.inj hparams))
      obtain rfl : params = params' := Option.some.inj hread
      exact ⟨hcomponents, hcomponents ▸ hlt⟩
    · cases hparams
  · rintro ⟨rfl, hlt⟩
    rw [if_pos hlt] at hline
    refine ⟨_, hline, rfl, fun kv hkv => amp_notMem_key hkv, fun component hmem heq => ?_⟩
    obtain ⟨⟨key, value⟩, hsplit⟩ : ∃ p, strchr 61 component = some p :=
      Option.ne_none_iff_exists'.mp fun hnone => strchr_eq_none_iff.mp hnone heq
    obtain ⟨rfl, hkey⟩ := strchr_eq_some_iff.mp hsplit
    exact ⟨⟨key, value⟩, mem_componentParams.mpr ⟨_, hmem, rfl, hkey⟩, rfl⟩

/-- Components without `=` at the end are left out. -/
theorem valueless_last_left_out :
    httpParserFirstLineCounted (ascii "GET /a?x=1&b&c HTTP/1.1") =
      .ok (.ok ⟨⟨ascii "GET", ascii "/a", ascii "HTTP/1.1", .get,
        some [⟨ascii "x", ascii "1"⟩]⟩, 1⟩) := by
  have hquery : QueryPlain (ascii "x=1&b&c") := by
    simp only [QueryPlain]
    decide
  have hvalues : ValuesFirst (ascii "x=1&b&c") := by
    simp only [ValuesFirst]
    decide
  obtain ⟨params, hline, hcomponents, -⟩ :=
    (query_components_iff getLine _ hquery).mpr ⟨hvalues, by decide⟩
  have htext : getLine.text (some (ascii "x=1&b&c")) = ascii "GET /a?x=1&b&c HTTP/1.1" := by decide
  have hparams : componentParams (ascii "x=1&b&c") = [⟨ascii "x", ascii "1"⟩] := by decide
  rw [htext, hcomponents, hparams] at hline
  exact hline

/-- A component without `=` becomes a part of the next key. -/
theorem valueless_first_merged :
    httpParserFirstLineCounted (ascii "GET /a?b&x=1 HTTP/1.1") =
      .ok (.ok ⟨⟨ascii "GET", ascii "/a", ascii "HTTP/1.1", .get,
        some [⟨ascii "b&x", ascii "1"⟩]⟩, 1⟩) ∧
    ¬ TakesComponents getLine (ascii "b&x=1") := by
  have hline : httpParserFirstLineCounted (ascii "GET /a?b&x=1 HTTP/1.1") =
      .ok (.ok ⟨⟨ascii "GET", ascii "/a", ascii "HTTP/1.1", .get,
        some [⟨ascii "b&x", ascii "1"⟩]⟩, 1⟩) := by decide
  have htext : getLine.text (some (ascii "b&x=1")) = ascii "GET /a?b&x=1 HTTP/1.1" := by decide
  refine ⟨hline, ?_⟩
  rintro ⟨params, hparams, -, hkeys, -⟩
  rw [htext, hline] at hparams
  have hread := congrArg (·.params) (Except.ok.inj (Except.ok.inj hparams))
  obtain rfl : [⟨ascii "b&x", ascii "1"⟩] = params := Option.some.inj hread
  exact hkeys _ List.mem_cons_self (by decide)

end MaestroCore
