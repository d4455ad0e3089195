import SkyResolver.Http.Addresses
import SkyResolver.Proofs.Cache.Expiry
import SkyResolver.Proofs.Service.Observation

/-! Which addresses are trusted. The checks of every call are noted as they end; over any number of
calls, an address other than the primary is returned only if it has passed a check, in the same call
or less than the lifetime of the memory before it. -/
namespace SkyResolver.AddressBook

/-! ### Noted checks -/

/-- A check that has ended. -/
structure Check where
  url : String
  passed : Bool
  time : Nat

/-- A world and the checks that were made in it, in their order. -/
structure Watched (σ : Type) where
  world : σ
  checks : List Check

/-- Checks that are noted when they end. -/
def noting {σ : Type} (clock : σ → Nat) (passes : String → StateM σ Bool) (url : String) :
    StateM (Watched σ) Bool := fun watched =>
  let (passed, world) := (passes url).run watched.world
  (passed, { world, checks := watched.checks ++ [⟨url, passed, clock world⟩] })

/-- The choice of an address with its checks noted. -/
def watchedChoice {σ : Type} (clock : σ → Nat) (passes : String → StateM σ Bool)
    (book : AddressBook) :
    StateM (Watched σ) (String × AddressBook) :=
  book.choose (fun watched => clock watched.world) (noting clock passes)

section Noting
variable {σ : Type} (clock : σ → Nat) (passes : String → StateM σ Bool)

lemma shadows_firstPassing (urls : List String) :
    Shadows Watched.world (firstPassing (noting clock passes) urls) (firstPassing passes urls) := by
  induction urls with
  | nil => exact .pure none
  | cons url urls ih =>
    refine Shadows.bind (fun watched => ⟨rfl, rfl⟩) fun passed => ?_
    split
    · exact .pure (some url)
    · exact ih

/-- Whether checks are noted or not makes no difference to the choice. -/
lemma shadows_watchedChoice (book : AddressBook) :
    Shadows Watched.world (book.watchedChoice clock passes) (book.choose clock passes) := by
  refine Shadows.get_bind fun watched => ?_
  dsimp only
  cases book.memory.get? (clock watched.world) () with
  | some url => exact .pure (url, book)
  | none =>
    refine (shadows_firstPassing clock passes book.addresses).bind fun found => ?_
    cases found with
    | none => exact .pure (book.primary, book)
    | some url => exact Shadows.get_bind fun watched => .pure _

end Noting

/-! ### Looking for an address that passes -/

/-- The checks go through the addresses in order, up to the first one that passes. -/
structure Finds (addresses : List String) (checks : List Check) (check : Check) : Prop where
  inOrder : checks.map Check.url <+: addresses
  ends : ∃ failed, checks = failed ++ [check] ∧ ∀ earlier ∈ failed, earlier.passed = false
  passed : check.passed = true

/-- The checks go through all addresses in order, and none passes. -/
structure FindsNone (addresses : List String) (checks : List Check) : Prop where
  inOrder : checks.map Check.url = addresses
  failed : ∀ check ∈ checks, check.passed = false

section Search
variable {addresses : List String} {checks : List Check} {check : Check}

lemma Finds.cons (h : Finds addresses checks check) (failure : Check)
    (hfailure : failure.passed = false) :
    Finds (failure.url :: addresses) (failure :: checks) check where
  inOrder := List.cons_prefix_cons.2 ⟨rfl, h.inOrder⟩
  ends := by
    obtain ⟨failed, rfl, hfailed⟩ := h.ends
    exact ⟨failure :: failed, rfl, List.forall_mem_cons.2 ⟨hfailure, hfailed⟩⟩
  passed := h.passed

lemma FindsNone.cons (h : FindsNone addresses checks) (failure : Check)
    (hfailure : failure.passed = false) :
    FindsNone (failure.url :: addresses) (failure :: checks) where
  inOrder := congrArg (failure.url :: ·) h.inOrder
  failed := List.forall_mem_cons.2 ⟨hfailure, h.failed⟩

lemma Finds.mem (h : Finds addresses checks check) : check ∈ checks := by
  obtain ⟨failed, rfl, -⟩ := h.ends
  simp

end Search

lemma firstPassing_noted {σ : Type} (clock : σ → Nat) (passes : String → StateM σ Bool)
    (urls : List String) (watched : Watched σ) :
    ∃ checks, ((firstPassing (noting clock passes) urls).run watched).2.checks =
      watched.checks ++ checks ∧
      match ((firstPassing (noting clock passes) urls).run watched).1 with
      | some url => ∃ check, Finds urls checks check ∧ check.url = url ∧
          check.time = clock ((firstPassing (noting clock passes) urls).run watched).2.world
      | none => FindsNone urls checks := by
  induction urls generalizing watched with
  | nil => exact ⟨[], (List.append_nil _).symm, rfl, nofun⟩
  | cons url urls ih =>
    -- What is left to do when the first check has ended.
    have hrun : (firstPassing (noting clock passes) (url :: urls)).run watched =
        if (noting clock passes url watched).1 then (some url, (noting clock passes url watched).2)
        else (firstPassing (noting clock passes) urls).run (noting clock passes url watched).2 := by
      change (if (noting clock passes url watched).1 = true then (pure (some url) : StateM _ _)
        else firstPassing (noting clock passes) urls) (noting clock passes url watched).2 = _
      split <;> rfl
    rw [hrun]
    cases hpassed : (noting clock passes url watched).1 with
    | true =>
      rw [if_pos rfl]
      refine ⟨[⟨url, true, clock ((passes url).run watched.world).2⟩], ?_, _,
        ⟨?_, ⟨[], rfl, nofun⟩, rfl⟩, rfl, rfl⟩
      · rw [← hpassed]
        rfl
      · exact List.cons_prefix_cons.2 ⟨rfl, List.nil_prefix⟩
    | false =>
      rw [if_neg nofun]
      obtain ⟨checks, hchecks, hresult⟩ := ih (noting clock passes url watched).2
      refine ⟨⟨url, false, clock ((passes url).run watched.world).2⟩ :: checks, ?_, ?_⟩
      · rw [hchecks, ← hpassed]
        exact List.append_assoc _ _ _
      · split at hresult
        · obtain ⟨check, hfinds, hrest⟩ := hresult
          exact ⟨check, hfinds.cons ⟨url, false, _⟩ rfl, hrest⟩
        · exact hresult.cons ⟨url, false, _⟩ rfl

/-! ### Calls -/

/-- One call: the addresses before it, when it was made, the checks it made, the address it
returned, and the addresses after it. -/
structure Selection where
  before : AddressBook
  time : Nat
  checks : List Check
  url : String
  after : AddressBook

/-- A call that is to be made: what happens in the world before it, and what checks say at that
time. -/
structure Demand (σ : Type) where
  meanwhile : σ → σ
  passes : String → StateM σ Bool

/-- One call, and the world behind it. -/
def select {σ : Type} (clock : σ → Nat) (book : AddressBook) (world : σ) (demand : Demand σ) :
    Selection × σ :=
  let now := demand.meanwhile world
  let chosen := (book.choose clock demand.passes).run now
  let watched := (book.watchedChoice clock demand.passes).run ⟨now, []⟩
  (⟨book, clock now, watched.2.checks, chosen.1.1, chosen.1.2⟩, chosen.2)

/-- Calls one after another, each with the addresses that the one before left. -/
def selections {σ : Type} (clock : σ → Nat) : AddressBook → σ → List (Demand σ) → List Selection
  | _, _, [] => []
  | book, world, demand :: demands =>
    let (selection, world) := book.select clock world demand
    selection :: selections clock selection.after world demands

/-- The latest check that passed. -/
def latestPassed (checks : List Check) : Option Check := (checks.filter Check.passed).getLast?

/-- The latest check that passed, if it was made less than `ttl` ago. -/
def recentlyPassed (ttl : Duration) (checks : List Check) (now : Nat) : Option Check :=
  (latestPassed checks).filter fun check => now - check.time < ttl.nanoseconds

/-- The addresses are the given ones, and the memory holds what the checks so far have found. -/
structure Knows (primary : String) (others : List String) (ttl : Duration) (checks : List Check)
    (book : AddressBook) : Prop where
  samePrimary : book.primary = primary
  sameOthers : book.others = others
  lifetime : book.memory.ttl = ttl
  memory : ∀ now, book.memory.get? now () = (recentlyPassed ttl checks now).map Check.url

/-- An address passes a check; it is returned and remembered. -/
structure Selection.Finds (ttl : Duration) (addresses : List String) (check : Check)
    (selection : Selection) : Prop where
  found : AddressBook.Finds addresses selection.checks check
  url : selection.url = check.url
  remembered : ∀ now, selection.after.memory.get? now () =
    if now - check.time < ttl.nanoseconds then some check.url else none

/-- No address passes a check; the primary is returned and nothing changes. -/
structure Selection.FallsBack (addresses : List String) (primary : String) (selection : Selection) :
    Prop where
  failed : FindsNone addresses selection.checks
  url : selection.url = primary
  after : selection.after = selection.before

section Calls
variable {σ : Type} {clock : σ → Nat} {primary : String} {others : List String} {ttl : Duration}
  {checks more : List Check} {check : Check} {book : AddressBook}

lemma latestPassed_append (h : ∀ check ∈ more, check.passed = false) :
    latestPassed (checks ++ more) = latestPassed checks := by
  have hmore : more.filter Check.passed = [] :=
    List.filter_eq_nil_iff.2 fun check hcheck => by simp [h check hcheck]
  rw [latestPassed, List.filter_append, hmore, List.append_nil, latestPassed]

lemma latestPassed_concat (h : check.passed = true) :
    latestPassed (checks ++ [check]) = some check := by
  simp [latestPassed, h]

lemma Finds.latestPassed {addresses : List String} (h : Finds addresses more check) :
    latestPassed (checks ++ more) = some check := by
  obtain ⟨failed, rfl, -⟩ := h.ends
  rw [← List.append_assoc]
  exact latestPassed_concat h.passed

lemma recentlyPassed_eq_some {now : Nat} : recentlyPassed ttl checks now = some check ↔
    latestPassed checks = some check ∧ now - check.time < ttl.nanoseconds := by
  rw [recentlyPassed, Option.filter_eq_some_iff, decide_eq_true_iff]

lemma mem_of_latestPassed (h : latestPassed checks = some check) :
    check ∈ checks ∧ check.passed = true :=
  List.mem_filter.1 (List.mem_of_getLast? h)

lemma knows_unchecked : Knows primary others ttl [] (unchecked primary others ttl) :=
  ⟨rfl, rfl, rfl, fun _ => rfl⟩

lemma Knows.addresses (h : Knows primary others ttl checks book) :
    book.addresses = primary :: others :=
  congrArg₂ List.cons h.samePrimary h.sameOthers

lemma Knows.congr (h : Knows primary others ttl checks book)
    (hlatest : latestPassed more = latestPassed checks) : Knows primary others ttl more book where
  samePrimary := h.samePrimary
  sameOthers := h.sameOthers
  lifetime := h.lifetime
  memory now := by rw [h.memory now, recentlyPassed, recentlyPassed, hlatest]

lemma Knows.insert (h : Knows primary others ttl checks book)
    (hlatest : latestPassed more = some check) :
    Knows primary others ttl more
      { book with memory := book.memory.insert check.time () check.url } where
  samePrimary := h.samePrimary
  sameOthers := h.sameOthers
  lifetime := h.lifetime
  memory now := by
    rw [recentlyPassed, hlatest, ← h.lifetime, Cache.get?, Cache.insert, Table.get?_insert_self,
      Option.filter_some, Option.filter_some, Cache.isFresh]
    by_cases hrecent : now - check.time < book.memory.ttl.nanoseconds <;> simp [hrecent]

lemma Knows.remembers (h : Knows primary others ttl checks book)
    (hlatest : latestPassed checks = some check) (now : Nat) : book.memory.get? now () =
      if now - check.time < ttl.nanoseconds then some check.url else none := by
  rw [h.memory, recentlyPassed, hlatest, Option.filter_some]
  by_cases hrecent : now - check.time < ttl.nanoseconds <;> simp [hrecent]

/-- The noted checks of a call are those of the call. -/
lemma select_eq (book : AddressBook) (world : σ) (demand : Demand σ) :
    book.select clock world demand =
      let now := demand.meanwhile world
      let watched := (book.watchedChoice clock demand.passes).run ⟨now, []⟩
      (⟨book, clock now, watched.2.checks, watched.1.1, watched.1.2⟩, watched.2.world) := by
  obtain ⟨hresult, hworld⟩ :=
    shadows_watchedChoice clock demand.passes book ⟨demand.meanwhile world, []⟩
  change _ = (book.choose clock demand.passes (demand.meanwhile world)).1 at hresult
  change _ = (book.choose clock demand.passes (demand.meanwhile world)).2 at hworld
  simp only [select, StateT.run, ← hresult, ← hworld]

lemma watchedChoice_run (book : AddressBook) (passes : String → StateM σ Bool)
    (watched : Watched σ) :
    (book.watchedChoice clock passes).run watched =
      match book.memory.get? (clock watched.world) () with
      | some url => ((url, book), watched)
      | none =>
        match (firstPassing (noting clock passes) book.addresses).run watched with
        | (some url, watched) =>
          ((url, { book with memory := book.memory.insert (clock watched.world) () url }), watched)
        | (none, watched) => ((book.primary, book), watched) := by
  unfold watchedChoice choose
  simp only [StateT.run_bind, StateT.run_get, pure_bind]
  cases book.memory.get? (clock watched.world) () with
  | some url => rfl
  | none =>
    rw [StateT.run_bind]
    rcases (firstPassing (noting clock passes) book.addresses).run watched with ⟨_ | url, after⟩ <;>
      rfl

/-- A call uses the memory if a check has passed recently, and else looks for an address that passes
now. -/
lemma Knows.select (h : Knows primary others ttl checks book) (world : σ) (demand : Demand σ) :
    let selection := (book.select clock world demand).1
    Knows primary others ttl (checks ++ selection.checks) selection.after ∧
      match recentlyPassed ttl checks selection.time with
      | some check =>
        selection.checks = [] ∧ selection.url = check.url ∧ selection.after = selection.before
      | none => (∃ check, selection.Finds ttl (primary :: others) check) ∨
          selection.FallsBack (primary :: others) primary := by
  rw [select_eq]
  dsimp only
  rw [watchedChoice_run]
  dsimp only
  rw [h.memory]
  cases hrecent : recentlyPassed ttl checks (clock (demand.meanwhile world)) with
  | some check => exact ⟨h.congr (congrArg latestPassed (List.append_nil checks)), rfl, rfl, rfl⟩
  | none =>
    obtain ⟨made, hmade, hresult⟩ := firstPassing_noted clock demand.passes book.addresses
      ⟨demand.meanwhile world, []⟩
    rw [h.addresses] at hmade hresult ⊢
    rcases hrun : (firstPassing (noting clock demand.passes) (primary :: others)).run
        ⟨demand.meanwhile world, []⟩ with ⟨_ | url, after⟩
    · rw [hrun] at hmade hresult
      obtain rfl : after.checks = made := hmade
      exact ⟨h.congr (latestPassed_append hresult.failed), .inr ⟨hresult, h.samePrimary, rfl⟩⟩
    · rw [hrun] at hmade hresult
      obtain rfl : after.checks = made := hmade
      obtain ⟨check, hfinds, rfl, htime⟩ := hresult
      have hlatest : latestPassed (checks ++ after.checks) = some check := hfinds.latestPassed
      have hknows := h.insert hlatest
      rw [htime] at hknows
      exact ⟨hknows, .inl ⟨check, hfinds, rfl, hknows.remembers hlatest⟩⟩

lemma selections_concat (book : AddressBook) (world : σ) (demands : List (Demand σ))
    {earlier later : List Selection} {selection : Selection}
    (h : Knows primary others ttl checks book)
    (hrun : selections clock book world demands = earlier ++ selection :: later) :
    ∃ book' world' demand, selection = (book'.select clock world' demand).1 ∧
      Knows primary others ttl (checks ++ earlier.flatMap Selection.checks) book' := by
  induction demands generalizing book world checks earlier with
  | nil => simp [selections] at hrun
  | cons demand demands ih =>
    rw [selections] at hrun
    cases earlier with
    | nil =>
      obtain ⟨rfl, -⟩ := List.cons.inj hrun
      exact ⟨book, world, demand, rfl, by simpa using h⟩
    | cons first earlier =>
      obtain ⟨rfl, hrest⟩ := List.cons.inj hrun
      rw [List.flatMap_cons, ← List.append_assoc]
      exact ih _ _ (h.select world demand).1 hrest

lemma Selection.Finds.checks_ne_nil {addresses : List String} {selection : Selection}
    (h : selection.Finds ttl addresses check) : selection.checks ≠ [] :=
  List.ne_nil_of_mem h.found.mem

lemma Selection.FallsBack.checks_ne_nil {selection : Selection}
    (h : selection.FallsBack (primary :: others) primary) : selection.checks ≠ [] := by
  intro hnil
  have hurls := h.failed.inOrder
  rw [hnil] at hurls
  cases hurls

/-- Of the calls on one book of addresses, a call makes no checks exactly if the latest check that
passed before it was made less than `ttl` ago; it then returns the address of that check. Any other
call checks the addresses in order, up to the first one that passes, which it returns and remembers;
or it checks all of them in vain, returns the primary and changes nothing. So an address other than
the primary has passed a check, in the call that returns it or less than `ttl` before. -/
theorem selections_trusted (clock : σ → Nat) (primary : String) (others : List String)
    (ttl : Duration) (world : σ) (demands : List (Demand σ)) (earlier later : List Selection)
    (selection : Selection) (hrun : selections clock (unchecked primary others ttl) world demands =
      earlier ++ selection :: later) :
    let before := earlier.flatMap Selection.checks
    (selection.checks = [] ↔ ∃ check, latestPassed before = some check ∧
      selection.time - check.time < ttl.nanoseconds) ∧
    (selection.checks = [] → ∃ check, latestPassed before = some check ∧
      selection.time - check.time < ttl.nanoseconds ∧ selection.url = check.url ∧
      selection.after = selection.before) ∧
    (selection.checks ≠ [] → (∃ check, selection.Finds ttl (primary :: others) check) ∨
      selection.FallsBack (primary :: others) primary) ∧
    (selection.url ≠ primary →
      (∃ check ∈ selection.checks, check.passed = true ∧ check.url = selection.url) ∨
      ∃ check ∈ before, check.passed = true ∧ check.url = selection.url ∧
        selection.time - check.time < ttl.nanoseconds) := by
  obtain ⟨book, now, demand, rfl, hknows⟩ := selections_concat _ world demands knows_unchecked hrun
  rw [List.nil_append] at hknows
  obtain ⟨-, hcase⟩ := hknows.select now demand
  generalize (book.select clock now demand).1 = selection at hcase
  generalize earlier.flatMap Selection.checks = before at hcase hknows
  dsimp only
  simp only [← recentlyPassed_eq_some]
  cases hrecent : recentlyPassed ttl before selection.time with
  | some check =>
    rw [hrecent] at hcase
    obtain ⟨hchecks, hurl, hafter⟩ := hcase
    obtain ⟨hlatest, htime⟩ := recentlyPassed_eq_some.1 hrecent
    obtain ⟨hmem, hpassed⟩ := mem_of_latestPassed hlatest
    exact ⟨⟨fun _ => ⟨check, rfl⟩, fun _ => hchecks⟩,
      fun _ => ⟨check, hlatest, htime, hurl, hafter⟩, fun hne => absurd hchecks hne,
      fun _ => .inr ⟨check, hmem, hpassed, hurl.symm, htime⟩⟩
  | none =>
    rw [hrecent] at hcase
    have hne : selection.checks ≠ [] := by
      rcases hcase with ⟨check, hfinds⟩ | hfalls
      · exact hfinds.checks_ne_nil
      · exact hfalls.checks_ne_nil
    refine ⟨⟨fun hnil => absurd hnil hne, nofun⟩, fun hnil => absurd hnil hne, fun _ => hcase,
      fun hurl => ?_⟩
    rcases hcase with ⟨check, hfinds⟩ | hfalls
    · exact .inl ⟨check, hfinds.found.mem, hfinds.found.passed, hfinds.url.symm⟩
    · exact absurd hfalls.url hurl

end Calls

/-- A call in a world that holds the time and the addresses that are up; each check takes one unit
of time. -/
def demandAt (time : Nat) (up : List String) : Demand (Nat × List String) where
  meanwhile _ := (time, up)
  passes url := fun (now, up) => (up.contains url, now + 1, up)

/-- While the primary is down, its mirror is taken; it is kept when the primary is up again, and
forgotten after ten units of time, when both are down. -/
def mirrorRun : List Selection :=
  selections Prod.fst (unchecked "p" ["m"] ⟨10⟩) (0, [])
    [demandAt 0 ["m"], demandAt 11 ["p", "m"], demandAt 12 []]

theorem selections_trusted_of_mirror :
    mirrorRun.map (fun selection => (selection.url, selection.checks.map Check.url)) =
      [("m", ["p", "m"]), ("m", []), ("p", ["p", "m"])] ∧
    (∃ check, latestPassed [⟨"p", false, 1⟩, ⟨"m", true, 2⟩] = some check ∧ 11 - check.time < 10 ∧
      "m" = check.url ∧ mirrorRun[1].after = mirrorRun[1].before) ∧
    ((∃ check, mirrorRun[2].Finds ⟨10⟩ ["p", "m"] check) ∨
      mirrorRun[2].FallsBack ["p", "m"] "p") := by
  have htrusted := selections_trusted Prod.fst "p" ["m"] ⟨10⟩ (0, [])
    [demandAt 0 ["m"], demandAt 11 ["p", "m"], demandAt 12 []]
  refine ⟨by decide, ?_, ?_⟩
  · exact (htrusted (mirrorRun.take 1) (mirrorRun.drop 2) mirrorRun[1] rfl).2.1 rfl
  · exact (htrusted (mirrorRun.take 2) [] mirrorRun[2] rfl).2.2.1 nofun

end SkyResolver.AddressBook
