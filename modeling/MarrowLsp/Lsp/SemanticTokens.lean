-- SUMMARY: The semantic-token requests: the server's cache of streams, the client's store of arrays, and that the two agree (backend.rs).
import MarrowLsp.Core.Documents
import MarrowLsp.Core.SemanticTokens
import MarrowLsp.Core.Sample

/-!
# Semantic-token requests

The server keeps the last stream it answered for each document and the client the
arrays it was told, by result id. Requests are computed with no lock held, so replies may
be answered, and received, in any order. What a request computes is left open: it may be
any stream.
-/
namespace MarrowLsp

open Transition

variable {M : Marrow}

/-! ## The server's cache -/

structure CachedSemanticTokens where
  resultId : String
  tokens : List SemanticToken
  deriving DecidableEq, Repr

structure SemanticTokensCache where
  nextId : Nat
  entries : AList fun _ : Url => CachedSemanticTokens

namespace SemanticTokensCache

def new : SemanticTokensCache := ⟨0, ∅⟩

/-- `next_id += 1`, in `u64`. -/
def mintedId (cache : SemanticTokensCache) : Nat := (cache.nextId + 1) % 2 ^ 64

/-- Record a stream as the latest of a URL; its fresh result id and the cache after. -/
def store (cache : SemanticTokensCache) (url : Url) (tokens : List SemanticToken) :
    String × SemanticTokensCache :=
  (toString cache.mintedId,
    ⟨cache.mintedId, cache.entries.insert url ⟨toString cache.mintedId, tokens⟩⟩)

def forget (cache : SemanticTokensCache) (url : Url) : SemanticTokensCache :=
  { cache with entries := cache.entries.erase url }

/-- The tokens last returned for a URL, when they carry the result id. -/
def previous (cache : SemanticTokensCache) (url : Url) (resultId : String) :
    Option (List SemanticToken) :=
  ((cache.entries.lookup url).filter fun entry => entry.resultId == resultId).map (·.tokens)

end SemanticTokensCache

/-! ## The requests -/

inductive TokensRequest where
  | full (url : Url)
  | delta (url : Url) (previousResultId : String)
  deriving DecidableEq, Repr

def TokensRequest.url : TokensRequest → Url
  | .full url => url
  | .delta url _ => url

/-- A reply on its way; a delta is one against the array of the result id echoed. -/
inductive TokensReply where
  | tokens (resultId : String) (data : List SemanticToken)
  | tokensDelta (base resultId : String) (edits : List SemanticTokensEdit)
  deriving DecidableEq, Repr

def TokensReply.resultId : TokensReply → String
  | .tokens resultId _ => resultId
  | .tokensDelta _ resultId _ => resultId

/-- The server's cache, the requests being computed, the replies on their way, and the
client with the array it holds for each result id. -/
structure TokensSession where
  documents : Documents
  cache : SemanticTokensCache
  computing : List TokensRequest
  replies : List TokensReply
  held : AList fun _ : String => List Nat
  /-- Every stream answered, with its result id, the newest first. -/
  answered : List (String × List SemanticToken)

inductive TokensAction where
  | didOpen (url : Url) (text : Text) (version : Int)
  | didChange (url : Url) (text : Text) (version : Int)
  | didClose (url : Url)
  | request (request : TokensRequest)
  /-- A request has computed a stream, and is answered. -/
  | answer (i : Nat) (data : List SemanticToken)
  /-- A request ends in an error. -/
  | fail (i : Nat)
  | receive (i : Nat)
  /-- The client drops an array it holds. -/
  | discard (resultId : String)

namespace TokensSession

def new : TokensSession := ⟨Documents.new, .new, [], [], ∅, []⟩

/-- The reply to a request that computed `data`, before the cache moves on to it. -/
def replyTo (cache : SemanticTokensCache) (request : TokensRequest) (data : List SemanticToken) :
    TokensReply :=
  let resultId := (cache.store request.url data).1
  match request with
  | .full _ => .tokens resultId data
  | .delta url base =>
    match (cache.previous url base).map fun previous => semanticTokensDeltaEdits previous data with
    | some edits => .tokensDelta base resultId edits
    | none => .tokens resultId data

def answer (s : TokensSession) (i : Nat) (request : TokensRequest) (data : List SemanticToken) :
    TokensSession :=
  let stored := s.cache.store request.url data
  { s with
    cache := stored.2
    computing := s.computing.eraseIdx i
    replies := s.replies ++ [replyTo s.cache request data]
    answered := (stored.1, data) :: s.answered }

/-- The client stores a full reply, and applies a delta to the array it holds for its
base, if any. -/
def hold (held : AList fun _ : String => List Nat) : TokensReply → AList fun _ : String => List Nat
  | .tokens resultId data => held.insert resultId (flatten data)
  | .tokensDelta base resultId edits =>
    match held.lookup base with
    | some array => held.insert resultId (applyEdits edits array)
    | none => held

/-- A client can use a full reply, and a delta against an array it holds. -/
def usable (held : AList fun _ : String => List Nat) : TokensReply → Bool
  | .tokens .. => true
  | .tokensDelta base _ _ => (held.lookup base).isSome

def receive (s : TokensSession) (i : Nat) (reply : TokensReply) : TokensSession :=
  { s with replies := s.replies.eraseIdx i, held := hold s.held reply }

/-- A request is computed for an open document whose URL names a file. -/
def serves (M : Marrow) (s : TokensSession) (url : Url) : Bool :=
  (M.toFilePath url).isSome && (s.documents.get url).isSome

def step (M : Marrow) (s : TokensSession) : TokensAction → Option TokensSession
  | .didOpen url text version =>
    some { s with documents := s.documents.openWithVersion url text (some version) }
  | .didChange url text version =>
    some { s with documents := s.documents.changeWithVersion url text (some version) }
  | .didClose url =>
    some { s with documents := s.documents.close url, cache := s.cache.forget url }
  | .request request =>
    some <| if s.serves M request.url then { s with computing := s.computing ++ [request] } else s
  | .answer i data => (s.computing[i]?).map fun request => s.answer i request data
  | .fail i => (s.computing[i]?).map fun _ => { s with computing := s.computing.eraseIdx i }
  | .receive i => (s.replies[i]?).map (s.receive i)
  | .discard resultId => some { s with held := s.held.erase resultId }

/-! ## Agreement -/

/-- The ids of a session's streams, as the counter mints them. -/
structure Minted (s : TokensSession) : Prop where
  counted : ∀ id data, (id, data) ∈ s.answered → ∃ n, n ≤ s.cache.nextId ∧ id = toString n
  nodup : (s.answered.map Prod.fst).Nodup

/-- A reply gives the stream answered under its id, to a client that holds its base. -/
def Truthful (answered : List (String × List SemanticToken)) : TokensReply → Prop
  | .tokens resultId data => (resultId, data) ∈ answered
  | .tokensDelta base resultId edits => ∃ previous data, (base, previous) ∈ answered ∧
      (resultId, data) ∈ answered ∧ applyEdits edits (flatten previous) = flatten data

/-- What the cache, the replies and the client have of a result id is its stream. -/
structure Agrees (s : TokensSession) : Prop where
  cached : ∀ url entry, s.cache.entries.lookup url = some entry →
    (entry.resultId, entry.tokens) ∈ s.answered
  replies : ∀ reply ∈ s.replies, Truthful s.answered reply
  held : ∀ id array, s.held.lookup id = some array →
    ∃ data, (id, data) ∈ s.answered ∧ array = flatten data

/-- The stream of an id. -/
theorem Minted.unique {s : TokensSession} (h : s.Minted) {id : String}
    {data data' : List SemanticToken} (hdata : (id, data) ∈ s.answered)
    (hdata' : (id, data') ∈ s.answered) : data = data' := by
  have hpair : (id, data) = (id, data') := List.inj_on_of_nodup_map h.nodup hdata hdata' rfl
  exact congrArg Prod.snd hpair

theorem mem_of_previous {s : TokensSession} (h : s.Agrees) {url : Url} {id : String}
    {tokens : List SemanticToken} (hprevious : s.cache.previous url id = some tokens) :
    (id, tokens) ∈ s.answered := by
  unfold SemanticTokensCache.previous at hprevious
  obtain ⟨entry, hfilter, rfl⟩ := Option.map_eq_some_iff.mp hprevious
  obtain ⟨hlookup, hid⟩ := Option.filter_eq_some_iff.mp hfilter
  rw [← eq_of_beq hid]
  exact h.cached url entry hlookup

theorem Truthful.mono {answered : List (String × List SemanticToken)}
    (added : String × List SemanticToken) {reply : TokensReply} (h : Truthful answered reply) :
    Truthful (added :: answered) reply := by
  cases reply with
  | tokens resultId data => exact List.mem_cons_of_mem _ h
  | tokensDelta base resultId edits =>
    obtain ⟨previous, data, hbase, hdata, hedits⟩ := h
    exact ⟨previous, data, List.mem_cons_of_mem _ hbase, List.mem_cons_of_mem _ hdata, hedits⟩

/-- The offsets of the edit a request is answered with fit, and so does its id. -/
def fits (s : TokensSession) : TokensAction → Bool
  | .answer i data =>
    decide (s.cache.nextId + 1 < 2 ^ 64) &&
      match s.computing[i]? with
      | some (.delta url base) =>
        (s.cache.previous url base).all fun previous => deltaFits previous data
      | _ => true
  | _ => true

theorem fits_answer {s : TokensSession} {i : Nat} {request : TokensRequest}
    {data : List SemanticToken} (hrequest : s.computing[i]? = some request)
    (h : s.fits (.answer i data) = true) :
    s.cache.nextId + 1 < 2 ^ 64 ∧ ∀ url base previous, request = .delta url base →
      s.cache.previous url base = some previous → deltaFits previous data = true := by
  simp only [fits, hrequest, Bool.and_eq_true, decide_eq_true_eq] at h
  refine ⟨h.1, ?_⟩
  rintro url base previous rfl hprevious
  have hall := h.2
  simp only [hprevious, Option.all_some] at hall
  exact hall

theorem truthful_replyTo {s : TokensSession} (h : s.Agrees) {request : TokensRequest}
    {data : List SemanticToken}
    (hfits : ∀ url base previous, request = .delta url base →
      s.cache.previous url base = some previous → deltaFits previous data = true) :
    Truthful (((s.cache.store request.url data).1, data) :: s.answered)
      (replyTo s.cache request data) := by
  cases request with
  | full url => exact List.mem_cons_self ..
  | delta url base =>
    cases hprevious : s.cache.previous url base with
    | none =>
      simp only [replyTo, hprevious, Option.map_none]
      exact List.mem_cons_self ..
    | some previous =>
      simp only [replyTo, hprevious, Option.map_some]
      refine ⟨previous, data, List.mem_cons_of_mem _ (mem_of_previous h hprevious),
        List.mem_cons_self .., ?_⟩
      exact applyEdits_semanticTokensDeltaEdits (hfits url base previous rfl hprevious)

theorem mintedId_of_lt {cache : SemanticTokensCache} (h : cache.nextId + 1 < 2 ^ 64) :
    cache.mintedId = cache.nextId + 1 :=
  Nat.mod_eq_of_lt h

theorem minted_answer {s : TokensSession} (h : s.Minted) (hlt : s.cache.nextId + 1 < 2 ^ 64)
    (i : Nat) (request : TokensRequest) (data : List SemanticToken) :
    (s.answer i request data).Minted := by
  have hid : s.cache.mintedId = s.cache.nextId + 1 := mintedId_of_lt hlt
  constructor
  · intro id data' hmem
    show ∃ n, n ≤ s.cache.mintedId ∧ id = toString n
    rcases List.mem_cons.mp hmem with hnew | hold
    · cases hnew
      exact ⟨s.cache.mintedId, le_rfl, rfl⟩
    · obtain ⟨n, hle, hn⟩ := h.counted id data' hold
      exact ⟨n, by omega, hn⟩
  · show ((toString s.cache.mintedId, data) :: s.answered).map Prod.fst |>.Nodup
    rw [List.map_cons, List.nodup_cons]
    refine ⟨fun hmem => ?_, h.nodup⟩
    obtain ⟨⟨id, data'⟩, hold, heq⟩ := List.mem_map.mp hmem
    obtain ⟨n, hle, rfl⟩ := h.counted id data' hold
    have hn : n = s.cache.mintedId := by
      simpa using congrArg (fun id => Nat.ofDigitChars 10 id.toList 0) heq
    omega

theorem agrees_answer {s : TokensSession} (h : s.Agrees) {i : Nat} {request : TokensRequest}
    {data : List SemanticToken}
    (hfits : ∀ url base previous, request = .delta url base →
      s.cache.previous url base = some previous → deltaFits previous data = true) :
    (s.answer i request data).Agrees := by
  refine ⟨fun url entry hlookup => ?_, fun reply hmem => ?_, fun id array hheld => ?_⟩
  · show (entry.resultId, entry.tokens) ∈ (_, data) :: s.answered
    by_cases hurl : url = request.url
    · subst hurl
      change (s.cache.entries.insert request.url _).lookup request.url = some entry at hlookup
      rw [AList.lookup_insert] at hlookup
      cases hlookup
      exact List.mem_cons_self ..
    · change (s.cache.entries.insert request.url _).lookup url = some entry at hlookup
      rw [AList.lookup_insert_ne hurl] at hlookup
      exact List.mem_cons_of_mem _ (h.cached url entry hlookup)
  · rcases List.mem_append.mp hmem with hold | hnew
    · exact (h.replies reply hold).mono _
    · rw [List.mem_singleton.mp hnew]
      exact truthful_replyTo h hfits
  · obtain ⟨data', hdata, harray⟩ := h.held id array hheld
    exact ⟨data', List.mem_cons_of_mem _ hdata, harray⟩

/-- A reply the client can use gives its id the stream that was answered under it. -/
theorem lookup_hold {s : TokensSession} (hminted : s.Minted) (h : s.Agrees) {reply : TokensReply}
    (hreply : Truthful s.answered reply) (husable : usable s.held reply = true) :
    ∃ data, (reply.resultId, data) ∈ s.answered ∧
      (hold s.held reply).lookup reply.resultId = some (flatten data) := by
  cases reply with
  | tokens resultId data => exact ⟨data, hreply, AList.lookup_insert _⟩
  | tokensDelta base resultId edits =>
    obtain ⟨array, harray⟩ := Option.isSome_iff_exists.mp husable
    obtain ⟨previous, data, hprevious, hdata, hedits⟩ := hreply
    obtain ⟨previous', hprevious', rfl⟩ := h.held base array harray
    rw [hminted.unique hprevious' hprevious] at harray
    refine ⟨data, hdata, ?_⟩
    simp only [hold, harray, TokensReply.resultId]
    rw [AList.lookup_insert, hedits]

/-- A reply touches the array of its own id only, and none when it cannot be used. -/
theorem lookup_hold_of_ne {held : AList fun _ : String => List Nat} {reply : TokensReply}
    {id : String} (h : id ≠ reply.resultId ∨ usable held reply = false) :
    (hold held reply).lookup id = held.lookup id := by
  cases reply with
  | tokens resultId data =>
    rcases h with hid | husable
    · exact AList.lookup_insert_ne hid
    · cases husable
  | tokensDelta base resultId edits =>
    cases hbase : held.lookup base with
    | none => simp only [hold, hbase]
    | some array =>
      rcases h with hid | husable
      · simp only [hold, hbase]
        exact AList.lookup_insert_ne hid
      · simp [usable, hbase] at husable

theorem agrees_receive {s : TokensSession} (hminted : s.Minted) (h : s.Agrees) {i : Nat}
    {reply : TokensReply} (hreply : s.replies[i]? = some reply) : (s.receive i reply).Agrees := by
  have htruthful := h.replies reply (List.mem_of_getElem? hreply)
  refine ⟨h.cached, fun other hmem => h.replies other (List.mem_of_mem_eraseIdx hmem), ?_⟩
  intro id array hheld
  change (hold s.held reply).lookup id = some array at hheld
  by_cases hid : id = reply.resultId ∧ usable s.held reply = true
  · obtain ⟨rfl, husable⟩ := hid
    obtain ⟨data, hdata, hlookup⟩ := lookup_hold hminted h htruthful husable
    rw [hlookup] at hheld
    exact ⟨data, hdata, (Option.some.inj hheld).symm⟩
  · rw [not_and_or, Bool.not_eq_true] at hid
    rw [lookup_hold_of_ne hid] at hheld
    exact h.held id array hheld

theorem agrees_step {s t : TokensSession} {action : TokensAction} (hminted : s.Minted)
    (h : s.Agrees) (hfits : s.fits action = true) (hstep : s.step M action = some t) :
    t.Minted ∧ t.Agrees := by
  cases action with
  | didOpen | didChange =>
    cases hstep
    exact ⟨⟨hminted.counted, hminted.nodup⟩, ⟨h.cached, h.replies, h.held⟩⟩
  | didClose url =>
    cases hstep
    refine ⟨⟨hminted.counted, hminted.nodup⟩, fun url' entry hlookup => ?_, h.replies, h.held⟩
    change (s.cache.entries.erase url).lookup url' = some entry at hlookup
    by_cases hurl : url' = url
    · subst hurl
      rw [AList.lookup_erase] at hlookup
      cases hlookup
    · rw [AList.lookup_erase_ne hurl] at hlookup
      exact h.cached url' entry hlookup
  | request request =>
    simp only [step, Option.some.injEq] at hstep
    subst hstep
    split
    · exact ⟨⟨hminted.counted, hminted.nodup⟩, ⟨h.cached, h.replies, h.held⟩⟩
    · exact ⟨hminted, h⟩
  | answer i data =>
    obtain ⟨request, hrequest, rfl⟩ := Option.map_eq_some_iff.mp hstep
    obtain ⟨hlt, hdelta⟩ := fits_answer hrequest hfits
    exact ⟨minted_answer hminted hlt i request data, agrees_answer h hdelta⟩
  | fail i =>
    obtain ⟨request, -, rfl⟩ := Option.map_eq_some_iff.mp hstep
    exact ⟨⟨hminted.counted, hminted.nodup⟩, ⟨h.cached, h.replies, h.held⟩⟩
  | receive i =>
    obtain ⟨reply, hreply, rfl⟩ := Option.map_eq_some_iff.mp hstep
    exact ⟨⟨hminted.counted, hminted.nodup⟩, agrees_receive hminted h hreply⟩
  | discard resultId =>
    cases hstep
    refine ⟨⟨hminted.counted, hminted.nodup⟩, h.cached, h.replies, fun id array hheld => ?_⟩
    change (s.held.erase resultId).lookup id = some array at hheld
    by_cases hid : id = resultId
    · subst hid
      rw [AList.lookup_erase] at hheld
      cases hheld
    · rw [AList.lookup_erase_ne hid] at hheld
      exact h.held id array hheld

theorem minted_new : new.Minted :=
  ⟨fun _ _ hmem => (List.not_mem_nil hmem).elim, List.nodup_nil⟩

theorem agrees_new : new.Agrees := by
  refine ⟨fun url entry hlookup => ?_, fun reply hmem => ?_, fun id array hlookup => ?_⟩
  · cases hlookup
  · cases hmem
  · cases hlookup

theorem agrees_of_reaches {s : TokensSession}
    (h : Reaches (step M) (fun s action => s.fits action = true) new s) :
    s.Minted ∧ s.Agrees :=
  h.invariant (I := fun s => s.Minted ∧ s.Agrees) ⟨minted_new, agrees_new⟩
    fun _ _ _ hs hfits hstep => agrees_step hs.1 hs.2 hfits hstep

/-- In every run whose offsets and ids fit: each array the client holds is the stream
answered under its id, no id is answered twice, every reply the client can use leaves it
with the stream answered, a base the cache does not hold is answered in full, and the
prefix and suffix kept by a delta do not overlap. -/
theorem client_agrees {s : TokensSession}
    (h : Reaches (step M) (fun s action => s.fits action = true) new s) :
    (∀ id array, s.held.lookup id = some array →
      ∃ data, (id, data) ∈ s.answered ∧ array = flatten data) ∧
    (s.answered.map Prod.fst).Nodup ∧
    (∀ i reply, s.replies[i]? = some reply → usable s.held reply = true →
      ∃ data, (reply.resultId, data) ∈ s.answered ∧
        (s.receive i reply).held.lookup reply.resultId = some (flatten data)) ∧
    (∀ url base data, s.cache.previous url base = none →
      ∃ id, replyTo s.cache (.delta url base) data = .tokens id data) ∧
    (∀ previous current, commonPrefix previous current + keptSuffix previous current ≤
      min previous.length current.length) := by
  obtain ⟨hminted, hagrees⟩ := agrees_of_reaches h
  refine ⟨hagrees.held, hminted.nodup, fun i reply hreply husable => ?_,
    fun url base data hprevious => ?_, commonPrefix_add_keptSuffix_le⟩
  · exact lookup_hold hminted hagrees (hagrees.replies reply (List.mem_of_getElem? hreply)) husable
  · exact ⟨_, by simp only [replyTo, hprevious, Option.map_none]; rfl⟩

end TokensSession

/-! ## A delta -/

namespace Sample

/-- A stream of one token is answered in full, and one of two by a delta against it. -/
def deltaTwice : List TokensAction :=
  [.didOpen (urlOf (app "A")) ['x'] 1, .request (.full (urlOf (app "A"))),
    .answer 0 [⟨0, 0, 1, 7, 0⟩], .receive 0, .request (.delta (urlOf (app "A")) "1"),
    .answer 0 [⟨0, 0, 1, 7, 0⟩, ⟨0, 2, 1, 7, 0⟩], .receive 0]

end Sample

namespace TokensSession

open Sample in
theorem client_agrees_deltaTwice : ∃ (s : TokensSession) (data : List SemanticToken),
    ("2", data) ∈ s.answered ∧
      s.held.lookup "2" = some [0, 0, 1, 7, 0, 0, 2, 1, 7, 0] ∧
      flatten data = [0, 0, 1, 7, 0, 0, 2, 1, 7, 0] := by
  have hrun : (run (guarded fits (step Marrow.sample)) new deltaTwice).any (fun s =>
      s.held.lookup "2" == some [0, 0, 1, 7, 0, 0, 2, 1, 7, 0]) = true := by
    decide
  obtain ⟨s, hs, hgood⟩ := (Option.any_eq_true _ _).mp hrun
  rw [beq_iff_eq] at hgood
  obtain ⟨hheld, -⟩ := client_agrees (reaches_of_run hs)
  obtain ⟨data, hdata, harray⟩ := hheld _ _ hgood
  exact ⟨s, data, hdata, hgood, harray.symm⟩

end TokensSession

end MarrowLsp
