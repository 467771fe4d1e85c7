import Nshmqtt.JsonTokens

/-!
# Flattening, member by member

The recursion of `flattenJsonObjectImpl` goes through the list of pairs.  Here it is
split into what one pair contributes and the objects below it, and compared with the
function as the caller sees it: a flag, and leaves appended to a vector.
-/

namespace Nshmqtt

open ByteStrings DecimalText

/-- A name below `parent`. -/
def joinedName (parent key : Bytes) : Bytes :=
  if parent = [] then key else parent ++ ascii "_" ++ key

/-- What one pair contributes. -/
def memberLeaves (parent : Bytes) (kv : Bytes × Bytes) : Option (List (Bytes × Double)) :=
  match kv.2.head? with
  | none => none
  | some c =>
      if c = openBrace then flattenJsonObjectImpl kv.2 (joinedName parent kv.1)
      else if c = openBracket ∨ c = quote then some []
      else if kv.2 = ascii "true" then some [(joinedName parent kv.1, Binary64.ofInt 1)]
      else if kv.2 = ascii "false" then some [(joinedName parent kv.1, Binary64.ofInt 0)]
      else if kv.2 = ascii "null" then some []
      else (parseDouble kv.2).map fun v => [(joinedName parent kv.1, v)]

/-- What a list of pairs contributes. -/
def pairsLeaves (parent : Bytes) : List (Bytes × Bytes) → Option (List (Bytes × Double))
  | [] => some []
  | kv :: pairs =>
      (memberLeaves parent kv).bind fun first => (pairsLeaves parent pairs).map (first ++ ·)

/-- The leaves of the pairs, one after the other. -/
theorem mapM_memberLeaves (parent : Bytes) (pairs : List (Bytes × Bytes)) :
    (pairs.mapM (memberLeaves parent)).map List.flatten = pairsLeaves parent pairs := by
  induction pairs with
  | nil => rfl
  | cons kv pairs ih =>
      rw [pairsLeaves, ← ih, List.mapM_cons]
      cases memberLeaves parent kv with
      | none => rfl
      | some first => cases pairs.mapM (memberLeaves parent) <;> rfl

/-- **One level of the recursion.** -/
theorem flattenJsonObjectImpl_eq (text parent : Bytes) :
    flattenJsonObjectImpl text parent =
      (tokenizeFlatObject text).bind (pairsLeaves parent) := by
  rw [flattenJsonObjectImpl]
  split
  · rename_i hnone
    rw [hnone]
    rfl
  · rename_i pairs hpairs
    have hright : (tokenizeFlatObject text).bind (pairsLeaves parent) =
        pairsLeaves parent pairs := by rw [hpairs, Option.bind_some]
    have hmembers : pairs.attach.mapM (fun member => memberLeaves parent member.1) =
        pairs.mapM (memberLeaves parent) := by
      rw [List.mapM_subtype (g := memberLeaves parent) (fun _ _ => rfl), List.unattach_attach]
    rw [hright, ← mapM_memberLeaves, ← hmembers]
    rfl

/-- `flattenJsonObjectImpl` as it is called: whether it succeeds, and the vector with
what was appended to it. -/
def flattenInto (text parent : Bytes) (out : List (Bytes × Double)) :
    Bool × List (Bytes × Double) :=
  match h : tokenizeFlatObject text with
  | none => (false, out)
  | some pairs =>
      pairs.attach.foldl (fun state (member : { pair // pair ∈ pairs }) =>
        let kv := member.1
        let name := joinedName parent kv.1
        if !state.1 then state
        else
          match kv.2.head? with
          | none => (false, state.2)
          | some c =>
              if c = openBrace then
                have : kv.2.length < text.length := tokenizeFlatObject_length h kv member.2
                flattenInto kv.2 name state.2
              else if c = openBracket ∨ c = quote then state
              else if kv.2 = ascii "true" then (true, state.2 ++ [(name, Binary64.ofInt 1)])
              else if kv.2 = ascii "false" then (true, state.2 ++ [(name, Binary64.ofInt 0)])
              else if kv.2 = ascii "null" then state
              else
                match parseDouble kv.2 with
                | none => (false, state.2)
                | some v => (true, state.2 ++ [(name, v)])) (true, out)
  termination_by text.length

/-- The same for one pair. -/
def memberInto (parent : Bytes) (kv : Bytes × Bytes) (out : List (Bytes × Double)) :
    Bool × List (Bytes × Double) :=
  match kv.2.head? with
  | none => (false, out)
  | some c =>
      if c = openBrace then flattenInto kv.2 (joinedName parent kv.1) out
      else if c = openBracket ∨ c = quote then (true, out)
      else if kv.2 = ascii "true" then
        (true, out ++ [(joinedName parent kv.1, Binary64.ofInt 1)])
      else if kv.2 = ascii "false" then
        (true, out ++ [(joinedName parent kv.1, Binary64.ofInt 0)])
      else if kv.2 = ascii "null" then (true, out)
      else
        match parseDouble kv.2 with
        | none => (false, out)
        | some v => (true, out ++ [(joinedName parent kv.1, v)])

def pairsInto (parent : Bytes) : List (Bytes × Bytes) → List (Bytes × Double) →
    Bool × List (Bytes × Double)
  | [], out => (true, out)
  | kv :: pairs, out =>
      match memberInto parent kv out with
      | (true, out) => pairsInto parent pairs out
      | (false, out) => (false, out)

/-- One turn of the loop, once it has returned or not. -/
def memberStep (parent : Bytes) (state : Bool × List (Bytes × Double)) (kv : Bytes × Bytes) :
    Bool × List (Bytes × Double) :=
  if !state.1 then state else memberInto parent kv state.2

/-- Once a member was refused nothing is added. -/
theorem foldl_memberStep_stopped (parent : Bytes) (pairs : List (Bytes × Bytes))
    (out : List (Bytes × Double)) :
    pairs.foldl (memberStep parent) (false, out) = (false, out) := by
  induction pairs with
  | nil => rfl
  | cons kv pairs ih => exact ih

/-- The loop of the source is the recursion over the pairs. -/
theorem foldl_memberStep (parent : Bytes) (pairs : List (Bytes × Bytes))
    (out : List (Bytes × Double)) :
    pairs.foldl (memberStep parent) (true, out) = pairsInto parent pairs out := by
  induction pairs generalizing out with
  | nil => rfl
  | cons kv pairs ih =>
      rw [List.foldl_cons, pairsInto]
      have hstep : memberStep parent (true, out) kv = memberInto parent kv out := rfl
      rw [hstep]
      rcases memberInto parent kv out with ⟨ok, out'⟩
      cases ok with
      | false => exact foldl_memberStep_stopped parent pairs out'
      | true => exact ih out'

/-- A text that is no object adds nothing. -/
theorem flattenInto_none {text : Bytes} (h : tokenizeFlatObject text = none) (parent : Bytes)
    (out : List (Bytes × Double)) : flattenInto text parent out = (false, out) := by
  rw [flattenInto]
  split
  · rfl
  · rename_i pairs hpairs
    rw [h] at hpairs
    cases hpairs

/-- An object adds what its pairs add. -/
theorem flattenInto_some {text : Bytes} {pairs : List (Bytes × Bytes)}
    (h : tokenizeFlatObject text = some pairs) (parent : Bytes) (out : List (Bytes × Double)) :
    flattenInto text parent out = pairsInto parent pairs out := by
  rw [flattenInto]
  split
  · rename_i hnone
    rw [h] at hnone
    cases hnone
  · rename_i others hothers
    obtain rfl := Option.some.inj (h.symm.trans hothers)
    rw [← foldl_memberStep, ← List.foldl_attach (f := memberStep parent)]
    congr 1
    funext state member
    obtain ⟨ok, out'⟩ := state
    cases ok <;> rfl

/-- What a caller can see of a result: the leaves behind the old elements, or a failure
that may have left a part of them there. -/
def Appends (out : List (Bytes × Double)) (result : Bool × List (Bytes × Double)) :
    Option (List (Bytes × Double)) → Prop
  | some leaves => result = (true, out ++ leaves)
  | none => result.1 = false ∧ out <+: result.2

/-- Pairs add their leaves when each member does. -/
theorem pairsInto_appends {parent : Bytes} {pairs : List (Bytes × Bytes)}
    (hmember : ∀ kv ∈ pairs, ∀ out, Appends out (memberInto parent kv out) (memberLeaves parent kv))
    (out : List (Bytes × Double)) :
    Appends out (pairsInto parent pairs out) (pairsLeaves parent pairs) := by
  induction pairs generalizing out with
  | nil => simp [Appends, pairsInto, pairsLeaves]
  | cons kv pairs ih =>
      have hfirst := hmember kv List.mem_cons_self out
      have hrest := ih fun kv' hkv' => hmember kv' (List.mem_cons_of_mem _ hkv')
      rw [pairsInto, pairsLeaves]
      cases hleaves : memberLeaves parent kv with
      | none =>
          rw [hleaves] at hfirst
          obtain ⟨hok, hprefix⟩ := hfirst
          rcases hinto : memberInto parent kv out with ⟨ok, out'⟩
          rw [hinto] at hok hprefix
          obtain rfl : ok = false := hok
          exact ⟨rfl, hprefix⟩
      | some first =>
          rw [hleaves] at hfirst
          rw [show memberInto parent kv out = (true, out ++ first) from hfirst]
          have hnext := hrest (out ++ first)
          cases hpairs : pairsLeaves parent pairs with
          | none =>
              rw [hpairs] at hnext
              exact ⟨hnext.1, (List.prefix_append _ _).trans hnext.2⟩
          | some others =>
              rw [hpairs] at hnext
              exact hnext.trans (by rw [List.append_assoc])

/-- **The vector of the caller.**  The leaves are appended behind what is there. -/
theorem flattenInto_appends (text parent : Bytes) (out : List (Bytes × Double)) :
    Appends out (flattenInto text parent out) (flattenJsonObjectImpl text parent) := by
  induction hn : text.length using Nat.strong_induction_on generalizing text parent out with
  | _ n ih =>
      subst hn
      rw [flattenJsonObjectImpl_eq]
      cases htokens : tokenizeFlatObject text with
      | none =>
          rw [flattenInto_none htokens]
          exact ⟨rfl, List.prefix_rfl⟩
      | some pairs =>
          rw [flattenInto_some htokens, Option.bind_some]
          apply pairsInto_appends
          intro kv hkv out
          have hlt := tokenizeFlatObject_length htokens kv hkv
          unfold memberInto memberLeaves
          cases kv.2.head? with
          | none => exact ⟨rfl, List.prefix_rfl⟩
          | some c =>
              dsimp only
              split_ifs
              · exact ih _ hlt _ _ _ rfl
              · exact congrArg (Prod.mk true) (List.append_nil out).symm
              · rfl
              · rfl
              · exact congrArg (Prod.mk true) (List.append_nil out).symm
              · cases parseDouble kv.2 with
                | none => exact ⟨rfl, List.prefix_rfl⟩
                | some v => rfl

end Nshmqtt
