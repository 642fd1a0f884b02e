import EgbFleet.Navigation.Session
import Mathlib.Logic.Function.Basic

/-!
# Wire — the action client

`zenoh_action_client.cpp` and `zenoh_helpers.cpp`: goal ids, the keys of a robot, and the calls of
its action servers, which go as queries over Zenoh.

* `generateGoalId_eq_iff`: two goal ids are the same just if the bytes drawn agree in the 122 bits
  that are kept, and the goal ids are the UUIDs of version 4.
* `sendFollowPathGoal_iff`: a goal counts as accepted just if the first good reply comes within the
  timeout, and says so.  Replies in error before it do no harm.
* `sendFollowPathGoal_eq`: this is the `sendWaypoints` of the navigation stack.
-/

namespace EgbFleet.Wire

/-! ### Goal ids -/

/-- `(byte & keep) | fixed`. -/
def stamp {w : ℕ} (keep fixed byte : BitVec w) : BitVec w := byte &&& keep ||| fixed

section

variable {w : ℕ} {keep fixed : BitVec w}

/-- What is kept of a byte can be read off. -/
theorem stamp_and_keep (h : fixed &&& keep = 0#w) (byte : BitVec w) :
    stamp keep fixed byte &&& keep = byte &&& keep := by
  rw [stamp, BitVec.and_or_distrib_right, h, BitVec.and_assoc, BitVec.and_self, BitVec.or_zero]

theorem stamp_eq_iff (h : fixed &&& keep = 0#w) {byte byte' : BitVec w} :
    stamp keep fixed byte = stamp keep fixed byte' ↔ byte &&& keep = byte' &&& keep := by
  constructor
  · intro heq
    rw [← stamp_and_keep h byte, heq, stamp_and_keep h]
  · intro heq
    rw [stamp, heq]
    rfl

/-- The bytes stamped are those with the fixed bits where nothing is kept. -/
theorem exists_stamp_iff (h : fixed &&& keep = 0#w) {byte : BitVec w} :
    (∃ drawn, stamp keep fixed drawn = byte) ↔ byte &&& ~~~keep = fixed := by
  constructor
  · rintro ⟨drawn, rfl⟩
    ext i hi
    have hbit := congrArg (·.getLsbD i) h
    simp only [BitVec.getLsbD_and, BitVec.getLsbD_zero] at hbit
    simp only [stamp, BitVec.getElem_and, BitVec.getElem_or, BitVec.getElem_not]
    rw [← BitVec.getLsbD_eq_getElem, ← BitVec.getLsbD_eq_getElem, ← BitVec.getLsbD_eq_getElem]
    cases hk : keep.getLsbD i <;> cases hf : fixed.getLsbD i <;> simp [hk, hf] at hbit ⊢
  · intro heq
    refine ⟨byte, ?_⟩
    rw [stamp, ← heq, ← BitVec.and_or_distrib_left, BitVec.or_not_self, BitVec.and_allOnes]

end

/-- `std::array<uint8_t, 16>`. -/
abbrev GoalId := Fin 16 → BitVec 8

/-- `generate_goal_id`, of the bytes it draws. -/
def generateGoalId (drawn : GoalId) : GoalId :=
  let goalId := Function.update drawn 6 (stamp 0x0F#8 0x40#8 (drawn 6))
  Function.update goalId 8 (stamp 0x3F#8 0x80#8 (goalId 8))

/-- The bits of each byte that are kept. -/
def keptBits : GoalId := fun i =>
  if i = 6 then 0x0F#8 else if i = 8 then 0x3F#8 else BitVec.allOnes 8

/-- The version, 4, and the variant. -/
def versionBits : GoalId := fun i => if i = 6 then 0x40#8 else if i = 8 then 0x80#8 else 0#8

theorem versionBits_and_keptBits (i : Fin 16) : versionBits i &&& keptBits i = 0#8 := by
  revert i
  decide

theorem generateGoalId_apply (drawn : GoalId) (i : Fin 16) :
    generateGoalId drawn i = stamp (keptBits i) (versionBits i) (drawn i) := by
  by_cases h8 : i = 8
  · subst h8
    rfl
  · by_cases h6 : i = 6
    · subst h6
      rfl
    · have hkept : keptBits i = BitVec.allOnes 8 := by rw [keptBits, if_neg h6, if_neg h8]
      have hversion : versionBits i = 0#8 := by rw [versionBits, if_neg h6, if_neg h8]
      rw [hkept, hversion, stamp, BitVec.and_allOnes, BitVec.or_zero]
      simp [generateGoalId, h6, h8]

/-- **Goal ids are version 4 UUIDs**, all of them, and two are the same just if the bytes drawn
agree in what is kept. -/
theorem generateGoalId_eq_iff :
    (∀ drawn drawn', generateGoalId drawn = generateGoalId drawn' ↔
      ∀ i, drawn i &&& keptBits i = drawn' i &&& keptBits i) ∧
    ∀ g, (∃ drawn, generateGoalId drawn = g) ↔ ∀ i, g i &&& ~~~keptBits i = versionBits i := by
  refine ⟨fun drawn drawn' => ?_, fun g => ?_⟩
  · simp only [funext_iff, generateGoalId_apply]
    exact forall_congr' fun i => stamp_eq_iff (versionBits_and_keptBits i)
  · simp only [funext_iff, generateGoalId_apply,
      ← exists_stamp_iff (versionBits_and_keptBits _)]
    exact (Classical.skolem (p := fun i byte => stamp (keptBits i) (versionBits i) byte = g i)).symm

/-! ### Queries -/

/-- `utils::namespacify`. -/
def namespacify (robotName topic : String) : String :=
  if robotName ≠ "" ∧ topic ≠ "" then robotName ++ "/" ++ topic else topic

/-- A `zenoh::Reply`. -/
inductive Reply (B : Type) where
  | ok (payload : B)
  | err

variable {G W B : Type}

/-- The loop of `query_action`: the replies, each with the milliseconds gone when it is received.
After the last the channel is closed. -/
def awaitReply (timeoutMs : ℤ) : List (ℤ × Reply B) → Option B
  | [] => none
  | (elapsed, reply) :: replies =>
      if timeoutMs < elapsed then none
      else
        match reply with
        | .ok payload => some payload
        | .err => awaitReply timeoutMs replies

/-- What comes of a `get` on the session: `zenoh::ZException`, or replies. -/
abbrev ZenohSession (B : Type) := (key : String) → B → ℤ → Except Unit (List (ℤ × Reply B))

/-- `query_action`. -/
def queryAction (session : Option (ZenohSession B)) (robotName actionName endpoint : String)
    (request : B) (timeoutMs : ℤ) : Option B :=
  match session with
  | none => none
  | some get =>
      match get (namespacify robotName (actionName ++ "/_action/" ++ endpoint)) request
          timeoutMs with
      | .error _ => none
      | .ok replies => awaitReply timeoutMs replies

/-- `rclcpp::Serialization`, of a request and of its response. -/
structure Codec (Req Res B : Type) where
  serialize : Req → Except Unit B
  deserialize : B → Except Unit Res

/-- `call_action`. -/
def callAction {Req Res : Type} (codec : Codec Req Res B) (session : Option (ZenohSession B))
    (robotName actionName endpoint : String) (request : Req) (timeoutMs : ℤ) : Option Res :=
  match codec.serialize request with
  | .error _ => none
  | .ok payload =>
      match queryAction session robotName actionName endpoint payload timeoutMs with
      | none => none
      | some reply =>
          match codec.deserialize reply with
          | .error _ => none
          | .ok response => some response

structure SendGoalRequest (G W : Type) where
  goalId : G
  waypoints : List W
  lanes : List Lane

structure SendGoalResponse where
  accepted : Bool

/-- `send_waypoints`. -/
def sendWaypoints (codec : Codec (SendGoalRequest G W) SendGoalResponse B)
    (session : Option (ZenohSession B)) (robotName : String) (goalId : G) (waypoints : List W)
    (lanes : List Lane) (timeoutMs : ℤ) : Bool :=
  if session.isNone || waypoints.isEmpty then false
  else
    match callAction codec session robotName "follow_waypoints" "send_goal"
        { goalId, waypoints, lanes } timeoutMs with
    | none => false
    | some response => response.accepted

/-- `send_follow_path_goal`, with its default timeout.  `order_id` is not sent. -/
def sendFollowPathGoal (codec : Codec (SendGoalRequest G W) SendGoalResponse B)
    (session : Option (ZenohSession B)) (robotName : String) (goalId : G) (waypoints : List W)
    (lanes : List Lane) (_orderId : String) : Bool :=
  sendWaypoints codec session robotName goalId waypoints lanes 5000

/-! ### What an answer is -/

/-- `payload` is the first good reply, and is in time, as are the replies in error before it. -/
def Answers (timeoutMs : ℤ) (replies : List (ℤ × Reply B)) (payload : B) : Prop :=
  ∃ before elapsed after, replies = before ++ (elapsed, .ok payload) :: after ∧
    elapsed ≤ timeoutMs ∧ ∀ r ∈ before, r.2 = .err ∧ r.1 ≤ timeoutMs

theorem awaitReply_eq_some {timeoutMs : ℤ} {replies : List (ℤ × Reply B)} {payload : B} :
    awaitReply timeoutMs replies = some payload ↔ Answers timeoutMs replies payload := by
  induction replies with
  | nil => simp [awaitReply, Answers]
  | cons r replies ih =>
      obtain ⟨elapsed, reply⟩ := r
      simp only [awaitReply]
      split
      · rename_i hlate
        refine iff_of_false nofun ?_
        rintro ⟨before, elapsed', after, heq, htime, hbefore⟩
        cases before with
        | nil =>
            cases heq
            exact absurd htime (Int.not_le.mpr hlate)
        | cons r before =>
            cases heq
            exact absurd (hbefore _ List.mem_cons_self).2 (Int.not_le.mpr hlate)
      · rename_i htime
        cases reply with
        | ok answer =>
            constructor
            · rintro ⟨⟩
              exact ⟨[], elapsed, replies, rfl, Int.not_lt.mp htime, nofun⟩
            · rintro ⟨before, elapsed', after, heq, -, hbefore⟩
              cases before with
              | nil =>
                  cases heq
                  rfl
              | cons r before =>
                  cases heq
                  cases (hbefore _ List.mem_cons_self).1
        | err =>
            rw [ih]
            constructor
            · rintro ⟨before, elapsed', after, rfl, htime', hbefore⟩
              refine ⟨(elapsed, .err) :: before, elapsed', after, rfl, htime', fun r hr => ?_⟩
              rcases List.mem_cons.mp hr with rfl | hr
              · exact ⟨rfl, Int.not_lt.mp htime⟩
              · exact hbefore r hr
            · rintro ⟨before, elapsed', after, heq, htime', hbefore⟩
              cases before with
              | nil => cases heq
              | cons r before =>
                  cases heq
                  exact ⟨before, elapsed', after, rfl, htime', fun r hr =>
                    hbefore r (List.mem_cons_of_mem _ hr)⟩

/-- The request reaches the session under the key of the robot's action, and is answered so. -/
def Replied {Req Res : Type} (codec : Codec Req Res B) (session : Option (ZenohSession B))
    (robotName actionName endpoint : String) (request : Req) (timeoutMs : ℤ) (response : Res) :
    Prop :=
  ∃ get ∈ session, ∃ payload replies reply, codec.serialize request = .ok payload ∧
    get (namespacify robotName (actionName ++ "/_action/" ++ endpoint)) payload timeoutMs =
      .ok replies ∧
    Answers timeoutMs replies reply ∧ codec.deserialize reply = .ok response

theorem callAction_eq_some {Req Res : Type} {codec : Codec Req Res B}
    {session : Option (ZenohSession B)} {robotName actionName endpoint : String} {request : Req}
    {timeoutMs : ℤ} {response : Res} :
    callAction codec session robotName actionName endpoint request timeoutMs = some response ↔
      Replied codec session robotName actionName endpoint request timeoutMs response := by
  cases hpayload : codec.serialize request with
  | error e => simp [callAction, Replied, hpayload]
  | ok payload =>
      cases session with
      | none => simp [callAction, Replied, hpayload, queryAction]
      | some get =>
          cases hreplies : get (namespacify robotName (actionName ++ "/_action/" ++ endpoint))
              payload timeoutMs with
          | error e => simp [callAction, Replied, hpayload, queryAction, hreplies]
          | ok replies =>
              simp only [callAction, hpayload, queryAction, hreplies]
              constructor
              · intro h
                split at h
                · cases h
                · rename_i reply hreply
                  split at h
                  · cases h
                  · rename_i hresponse
                    cases h
                    exact ⟨get, rfl, payload, replies, reply, hpayload, hreplies,
                      awaitReply_eq_some.mp hreply, hresponse⟩
              · rintro ⟨_, ⟨⟩, payload', replies', reply, hpayload', hreplies', hanswer, hresponse⟩
                cases hpayload.symm.trans hpayload'
                cases hreplies.symm.trans hreplies'
                simp only [awaitReply_eq_some.mpr hanswer, hresponse]

/-! ### Goals -/

section

variable (codec : Codec (SendGoalRequest G W) SendGoalResponse B)
  (session : Option (ZenohSession B)) (robotName : String) (goalId : G) (waypoints : List W)
  (lanes : List Lane) (orderId : String)

/-- **A goal is accepted** just if it has waypoints, and the first good reply under the key of the
robot's `send_goal` comes within 5 s, before which none but replies in error came, and says so. -/
theorem sendFollowPathGoal_iff :
    sendFollowPathGoal codec session robotName goalId waypoints lanes orderId = true ↔
      waypoints ≠ [] ∧
        Replied codec session robotName "follow_waypoints" "send_goal"
          { goalId, waypoints, lanes } 5000 { accepted := true } := by
  rw [sendFollowPathGoal, sendWaypoints]
  split
  · rename_i hnone
    refine iff_of_false nofun ?_
    rintro ⟨hne, get, hget, -⟩
    rcases Bool.or_eq_true_iff.mp hnone with h | h
    · rw [Option.isNone_iff_eq_none.mp h] at hget
      cases hget
    · exact hne (List.isEmpty_iff.mp h)
  · rename_i hsome
    have hne : waypoints ≠ [] := fun h => hsome (by simp [h])
    rw [← callAction_eq_some]
    split
    · rename_i hcall
      rw [hcall]
      exact iff_of_false nofun (by rintro ⟨-, ⟨⟩⟩)
    · rename_i response hcall
      obtain ⟨accepted⟩ := response
      rw [hcall]
      cases accepted with
      | true => exact iff_of_true rfl ⟨hne, rfl⟩
      | false => exact iff_of_false nofun (by rintro ⟨-, ⟨⟩⟩)

/-- The network, as one `execute_path` finds it. -/
def network : Network G where
  goalId := goalId
  zenohSession := session.isSome
  reply := (callAction codec session robotName "follow_waypoints" "send_goal"
    { goalId, waypoints, lanes } 5000).map SendGoalResponse.accepted

/-- It is what the navigation stack asks of its network. -/
theorem sendFollowPathGoal_eq :
    sendFollowPathGoal codec session robotName goalId waypoints lanes orderId =
      EgbFleet.sendWaypoints (network codec session robotName goalId waypoints lanes)
        waypoints := by
  cases waypoints with
  | nil => simp [sendFollowPathGoal, sendWaypoints, EgbFleet.sendWaypoints]
  | cons w waypoints =>
      cases session with
      | none => rfl
      | some get =>
          cases hcall : callAction codec (some get) robotName "follow_waypoints" "send_goal"
              { goalId, waypoints := w :: waypoints, lanes } 5000 with
          | none =>
              simp [sendFollowPathGoal, sendWaypoints, EgbFleet.sendWaypoints, network, hcall]
          | some response =>
              simp [sendFollowPathGoal, sendWaypoints, EgbFleet.sendWaypoints, network, hcall]

end

end EgbFleet.Wire
