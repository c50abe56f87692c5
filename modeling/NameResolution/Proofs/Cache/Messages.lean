import NameResolution.Proofs.Cache.Writes

/-!
# What a response writes

Which writes a response makes, and what adding it results in, depends on the response alone.

* `Cache.writesOf`: the writes that a response makes, in their order.
* `Cache.addMessage_eq`: adding a response performs these writes.
-/

namespace NameResolution

namespace Cache

/-- Performs some writes, one after the other, until one is refused. -/
def performAll (now : Duration) : List Write → Op Cache Unit
  | [] => return
  | write :: writes => do
    write.perform now
    performAll now writes

theorem performAll_append (now : Duration) (writes more : List Write) :
    performAll now (writes ++ more) =
      performAll now writes >>= fun _ => performAll now more := by
  induction writes with
  | nil => simp [performAll]
  | cons write writes ih => simp [performAll, ih]

/-! ## The answer section -/

/-- How far the `walk` through the `answer` section comes. -/
def walked (question : Question) (walk : Walk) : List RecordSet → Walk
  | [] => walk
  | set :: sets =>
    match walk.meaning question set with
    | .nothing => walked question walk sets
    | .answer => walked question (walk.complete set) sets
    | .cname => walked question (walk.followCname set) sets
    | .dname =>
      match walk.followDname set with
      | some walk => walked question walk sets
      | none => walk

/-- The writes of an `answer` section. -/
def answerWrites (question : Question) (credibility : Credibility) (walk : Walk) :
    List RecordSet → List Write
  | [] => []
  | set :: sets =>
    match walk.meaning question set with
    | .nothing => answerWrites question credibility walk sets
    | .answer =>
      .ofSet set credibility :: answerWrites question credibility (walk.complete set) sets
    | .cname =>
      .ofSet set credibility :: answerWrites question credibility (walk.followCname set) sets
    | .dname => .ofSet set credibility ::
      match walk.followDname set with
      | some walk => answerWrites question credibility walk sets
      | none => []

/-- Behind an alias of a subtree only the `name` is another one, and what was found if nothing
was. -/
theorem Walk.followDname_eq_some {walk next : Walk} {set : RecordSet}
    (follows : walk.followDname set = some next) : ∃ name, next = {
      name := name
      aliased := true
      completed := walk.completed
      found := if walk.aliased then walk.found else some (.dname set)
      hosts := walk.hosts } := by
  unfold followDname at follows
  dsimp only at follows
  split at follows
  · cases follows
  · exact ⟨_, (Option.some.inj follows).symm⟩

theorem walkAnswer_eq (question : Question) (credibility : Credibility) (now : Duration)
    (walk : Walk) (sets : List RecordSet) :
    walkAnswer question credibility now walk sets = do
      performAll now (answerWrites question credibility walk sets)
      return walked question walk sets := by
  induction sets generalizing walk with
  | nil => simp [walkAnswer, answerWrites, walked, performAll]
  | cons set sets ih =>
    unfold walkAnswer answerWrites walked
    cases walk.meaning question set with
    | nothing => exact ih walk
    | answer => simp [ih, performAll, Write.perform]
    | cname => simp [ih, performAll, Write.perform]
    | dname => cases walk.followDname set <;> simp [ih, performAll, Write.perform]

/-! ## The authority section -/

/-- The `walk` after the authority section. -/
def informed (message : Message) (walk : Walk) : Walk :=
  let sets := message.sets .authority
  let soa := lastCovering sets walk.name .soa
  let servers := lastCovering sets walk.name .ns
  let missing : Bool := message.rcode = .nxDomain
  if walk.completed then
    match servers with
    | some servers =>
      if message.rcode = .noError then
        { walk with hosts := walk.hosts ++ servers.additionalNames }
      else walk
    | none => walk
  else
    match servers, !missing && soa.isNone with
    | some servers, true => { walk with
        hosts := walk.hosts ++ servers.additionalNames
        found := walk.found.or (some (.delegation servers)) }
    | _, _ => { walk with
        found := walk.found.or (some (if missing then .nxDomain else .nxRrset)) }

/-- The writes of an authority section behind a `walk`: the servers that are responsible, or that
there is nothing to be found. -/
def authorityWrites (question : Question) (message : Message) (walk : Walk) : List Write :=
  let sets := message.sets .authority
  let soa := lastCovering sets walk.name .soa
  let servers := lastCovering sets walk.name .ns
  let credibility := Credibility.ofAuthority message.header.isAuthoritative
  let missing : Bool := message.rcode = .nxDomain
  if walk.completed then
    match servers with
    | some servers => if message.rcode = .noError then [.ofSet servers credibility] else []
    | none => []
  else
    match servers, !missing && soa.isNone with
    | some servers, true => [.ofSet servers credibility]
    | _, _ =>
      let ttl := (soa.map absenceTtlOfSet).getD 0
      [.ofAbsence walk.name (if missing then .nothing else question.type) ttl credibility]

theorem addAuthority_eq (question : Question) (message : Message) (now : Duration) (walk : Walk) :
    addAuthority question message now walk = do
      performAll now (authorityWrites question message walk)
      return informed message walk := by
  unfold addAuthority authorityWrites informed
  dsimp only
  generalize lastCovering (message.sets .authority) walk.name .ns = servers
  generalize lastCovering (message.sets .authority) walk.name .soa = soa
  cases walk.completed with
  | true =>
    cases servers with
    | none => simp [performAll]
    | some servers =>
      by_cases fine : message.rcode = .noError <;> simp [fine, performAll, Write.perform]
  | false =>
    cases servers with
    | none => simp [performAll, Write.perform]
    | some servers =>
      cases !(decide (message.rcode = .nxDomain)) && soa.isNone <;>
        simp [performAll, Write.perform]

/-- What an `authority` section is taken for: how the `walk` stands after it, and what it writes. -/
inductive Concludes (question : Question) (message : Message) (walk : Walk) :
    Walk → List Write → Prop
  | servers {set : RecordSet} (completed : walk.completed = true)
    (fine : message.rcode = .noError)
    (covers : lastCovering (message.sets .authority) walk.name .ns = some set) :
    Concludes question message walk { walk with hosts := walk.hosts ++ set.additionalNames }
      [.ofSet set (.ofAuthority message.header.isAuthoritative)]
  | answered (completed : walk.completed = true) : Concludes question message walk walk []
  | referral {set : RecordSet} (unanswered : walk.completed = false)
    (exist : message.rcode ≠ .nxDomain)
    (foreign : lastCovering (message.sets .authority) walk.name .soa = none)
    (covers : lastCovering (message.sets .authority) walk.name .ns = some set) :
    Concludes question message walk
      { walk with
        hosts := walk.hosts ++ set.additionalNames
        found := walk.found.or (some (.delegation set)) }
      [.ofSet set (.ofAuthority message.header.isAuthoritative)]
  | absence (unanswered : walk.completed = false)
    (final : message.rcode = .nxDomain ∨
      (lastCovering (message.sets .authority) walk.name .soa).isSome ∨
      lastCovering (message.sets .authority) walk.name .ns = none) :
    Concludes question message walk
      { walk with
        found := walk.found.or (some
          (if message.rcode = .nxDomain then .nxDomain else .nxRrset)) }
      [.ofAbsence walk.name (if message.rcode = .nxDomain then .nothing else question.type)
        (((lastCovering (message.sets .authority) walk.name .soa).map absenceTtlOfSet).getD 0)
        (.ofAuthority message.header.isAuthoritative)]

theorem concludes (question : Question) (message : Message) (walk : Walk) :
    Concludes question message walk (informed message walk)
      (authorityWrites question message walk) := by
  obtain ⟨name, aliased, completed, found, hosts⟩ := walk
  unfold informed authorityWrites
  dsimp only
  cases completed with
  | true =>
    cases covers : lastCovering (message.sets .authority) name .ns with
    | none => exact .answered rfl
    | some set =>
      by_cases fine : message.rcode = .noError
      · simp only [fine, if_true]
        exact .servers rfl fine covers
      · simp only [fine, if_true, if_false]
        exact .answered rfl
  | false =>
    simp only [Bool.false_eq_true, if_false, decide_eq_true_eq]
    split
    · rename_i set covers unopposed
      simp only [Bool.and_eq_true, Bool.not_eq_true', decide_eq_false_iff_not,
        Option.isNone_iff_eq_none] at unopposed
      exact .referral rfl unopposed.1 unopposed.2 covers
    · -- Servers are there but are not taken for a referral: the name is missing, or an SOA record
      -- stands beside them.
      rename_i opposed
      refine .absence rfl ?_
      cases covers : lastCovering (message.sets .authority) name .ns with
      | none => exact .inr (.inr rfl)
      | some set =>
        by_cases missing : message.rcode = .nxDomain
        · exact .inl missing
        · cases soa : lastCovering (message.sets .authority) name .soa with
          | some set => exact .inr (.inl rfl)
          | none => exact (opposed set covers (by simp [missing, soa])).elim

/-! ## The additional section -/

/-- The writes of an additional section: the addresses of the `hosts` that were mentioned. -/
def additionalWrites (hosts : List Name) (credibility : Credibility) (sets : List RecordSet) :
    List Write :=
  (sets.filter fun set => set.type.IsAddress ∧ hosts.contains set.owner).map (.ofSet · credibility)

theorem addAdditional_eq (hosts : List Name) (credibility : Credibility) (now : Duration)
    (sets : List RecordSet) :
    addAdditional hosts credibility now sets =
      performAll now (additionalWrites hosts credibility sets) := by
  induction sets with
  | nil => rfl
  | cons set sets ih =>
    unfold addAdditional additionalWrites
    rw [ih, List.filter_cons]
    by_cases useful : set.type.IsAddress ∧ hosts.contains set.owner
    · simp [useful, performAll, Write.perform, additionalWrites]
    · simp [useful, additionalWrites]

/-! ## Responses -/

/-- The `Walk` through the answer section of a response. -/
def answerWalk (question : Question) (message : Message) : Walk :=
  walked question (.start question.name) (message.sets .answer)

/-- The writes of the answer section of a `message`. -/
def replyWrites (question : Question) (message : Message) : List Write :=
  answerWrites question (.ofAnswer message.header.isAuthoritative) (.start question.name)
    (message.sets .answer)

/-- The writes that a response makes to a `question`. -/
def writesFor (question : Question) (message : Message) : List Write :=
  let authoritative := message.header.isAuthoritative
  let walk := answerWalk question message
  answerWrites question (.ofAnswer authoritative) (.start question.name) (message.sets .answer) ++
    authorityWrites question message walk ++
    additionalWrites (informed message walk).hosts (.ofAdditional authoritative)
      (message.sets .additional)

/-- The writes that a `message` makes. -/
def writesOf (message : Message) : List Write :=
  match message.questions with
  | [] => []
  | question :: _ =>
    if message.rcode = .noError ∨ message.rcode = .nxDomain then writesFor question message else []

/-- What adding a `message` results in. -/
def meaningOf (message : Message) : Lookup :=
  match message.questions with
  | [] => .unknown
  | question :: _ =>
    if message.rcode = .noError ∨ message.rcode = .nxDomain then
      (informed message (answerWalk question message)).found.getD .unknown
    else .unknown

/-- To add a `message` is to perform its `writesOf`, whatever the cache. -/
theorem addMessage_eq (message : Message) (now : Duration) :
    addMessage message now = do
      performAll now (writesOf message)
      return meaningOf message := by
  unfold addMessage writesOf meaningOf
  cases message.questions with
  | nil => simp [performAll]
  | cons question questions =>
    by_cases usable : message.rcode = .noError ∨ message.rcode = .nxDomain
    · simp only [usable, if_true, walkAnswer_eq, addAuthority_eq, addAdditional_eq, writesFor,
        performAll_append, answerWalk, bind_assoc, pure_bind]
    · simp [usable, performAll]

end Cache

end NameResolution
