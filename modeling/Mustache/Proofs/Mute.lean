import Mustache.Proofs.Section

/-!
This module contains data whose callouts return nothing. Nothing but the results of callouts tells it
from the data it was made of: lookups, the text of variables and the plans of sections are the same.
-/

namespace Mustache

/-- A callout that is called alike, and returns nothing. -/
def Callout.mute (callout : Callout) : Callout :=
  .mk callout.label fun _ => .ok .null

mutual

def Value.mute : Value → Value
  | .list items => .list (Value.muteItems items)
  | .tuple items => .tuple (Value.muteItems items)
  | .set items => .set (Value.muteItems items)
  | .record shape fields => .record shape (Value.muteFields fields)
  | .function callout => .function callout.mute
  | .bound binding => .bound binding.mute
  | value => value

def Value.muteItems : List Value → List Value
  | [] => []
  | value :: rest => value.mute :: Value.muteItems rest

def Value.muteFields : List (Key × Value) → List (Key × Value)
  | [] => []
  | (key, value) :: rest => (key, value.mute) :: Value.muteFields rest

def Binding.mute : Binding → Binding
  | .variable value => .variable value.mute
  | .list items => .list (Binding.muteContexts items)
  | .callout effectful callout => .callout effectful callout.mute
  | binding => binding

def Binding.muteContexts : List Context → List Context
  | [] => []
  | context :: rest => (fun name => (context name).mute) :: Binding.muteContexts rest

end

def Context.mute (context : Context) : Context :=
  fun name => (context name).mute

def Stack.mute (stack : Stack) : Stack :=
  stack.map Context.mute

theorem Binding.muteContexts_eq (items : List Context)
    : Binding.muteContexts items = items.map Context.mute := by
  induction items with
  | nil => rfl
  | cons context rest ih =>
    unfold Binding.muteContexts
    rw [ih]
    rfl

theorem Binding.mute_list (items : List Context)
    : (Binding.list items).mute = .list (items.map Context.mute) := by
  unfold mute
  rw [muteContexts_eq]

mutual

theorem Value.literal_mute (value : Value) : value.mute.literal = value.literal := by
  cases value with
  | list items =>
    unfold Value.mute Value.literal
    rw [Value.literals_mute]
  | tuple items =>
    unfold Value.mute Value.literal
    rw [Value.literals_mute]
  | set items =>
    cases items with
    | nil => rfl
    | cons item rest =>
      have := Value.literals_mute (item :: rest)
      unfold Value.muteItems at this
      unfold Value.mute Value.literal Value.muteItems
      dsimp
      rw [this]
  | record shape fields =>
    have := Value.fieldLiterals_mute fields
    cases shape <;> unfold Value.mute Value.literal <;> dsimp <;> rw [this]
  | bound binding =>
    unfold Value.mute Value.literal
    exact Binding.literal_mute binding
  | _ => rfl

theorem Value.literals_mute (items : List Value)
    : Value.literals (Value.muteItems items) = Value.literals items := by
  cases items with
  | nil => rfl
  | cons value rest =>
    unfold Value.muteItems Value.literals
    rw [value.literal_mute, Value.literals_mute]

theorem Value.fieldLiterals_mute (fields : List (Key × Value))
    : Value.fieldLiterals (Value.muteFields fields) = Value.fieldLiterals fields := by
  cases fields with
  | nil => rfl
  | cons field rest =>
    rcases field with ⟨key, value⟩
    unfold Value.muteFields Value.fieldLiterals
    rw [value.literal_mute, Value.fieldLiterals_mute]

theorem Binding.literal_mute (binding : Binding) : binding.mute.literal = binding.literal := by
  cases binding with
  | absent => rfl
  | «variable» value =>
    unfold Binding.mute Binding.literal
    rw [value.literal_mute]
  | list items =>
    unfold Binding.mute Binding.literal
    rw [Binding.muteContexts_eq, List.map_map]
    rfl
  | flag => rfl
  | callout => rfl

end

theorem Value.display_mute (value : Value) : value.mute.display = value.display := by
  have := value.literal_mute
  cases value <;> first | rfl | exact this

mutual

theorem Value.render_mute (value : Value) : value.mute.render = value.render := by
  have hdisplay := value.display_mute
  cases value with
  | list items =>
    unfold Value.mute Value.render
    rw [Value.renderItems_mute]
  | tuple items =>
    unfold Value.mute Value.render
    rw [Value.renderItems_mute]
  | record shape fields =>
    have := Value.renderFields_mute fields
    cases shape with
    | row =>
      unfold Value.mute Value.render
      rw [this]
    | _ => exact congrArg Utf8.encode hdisplay
  | bound binding =>
    unfold Value.mute Value.render
    exact Binding.render_mute binding
  | set items => exact congrArg Utf8.encode hdisplay
  | _ => rfl

theorem Value.renderItems_mute (items : List Value)
    : Value.renderItems (Value.muteItems items) = Value.renderItems items := by
  cases items with
  | nil => rfl
  | cons value rest =>
    unfold Value.muteItems Value.renderItems
    rw [value.render_mute, Value.renderItems_mute]

theorem Value.renderFields_mute (fields : List (Key × Value))
    : Value.renderFields (Value.muteFields fields) = Value.renderFields fields := by
  cases fields with
  | nil => rfl
  | cons field rest =>
    rcases field with ⟨key, value⟩
    unfold Value.muteFields Value.renderFields
    rw [value.render_mute, Value.renderFields_mute]

theorem Binding.render_mute (binding : Binding) : binding.mute.render = binding.render := by
  have hliteral := binding.literal_mute
  cases binding with
  | absent => rfl
  | «variable» value =>
    unfold Binding.mute Binding.render
    exact value.render_mute
  | list items => exact congrArg Utf8.encode hliteral
  | flag => rfl
  | callout => rfl

end

mutual

theorem Value.hasText_mute (value : Value) : value.mute.hasText = value.hasText := by
  cases value with
  | list items =>
    unfold Value.mute Value.hasText
    exact Value.haveText_mute items
  | tuple items =>
    unfold Value.mute Value.hasText
    exact Value.haveText_mute items
  | set items =>
    unfold Value.mute Value.hasText
    exact Value.haveText_mute items
  | record shape fields =>
    unfold Value.mute Value.hasText
    exact Value.fieldsHaveText_mute fields
  | bound binding =>
    cases binding with
    | absent => rfl
    | «variable» value =>
      unfold Value.mute Binding.mute Value.hasText
      exact value.hasText_mute
    | list items => rfl
    | flag => rfl
    | callout => rfl
  | _ => rfl

theorem Value.haveText_mute (items : List Value)
    : Value.haveText (Value.muteItems items) = Value.haveText items := by
  cases items with
  | nil => rfl
  | cons value rest =>
    unfold Value.muteItems Value.haveText
    rw [value.hasText_mute, Value.haveText_mute]

theorem Value.fieldsHaveText_mute (fields : List (Key × Value))
    : Value.fieldsHaveText (Value.muteFields fields) = Value.fieldsHaveText fields := by
  cases fields with
  | nil => rfl
  | cons field rest =>
    rcases field with ⟨key, value⟩
    unfold Value.muteFields Value.fieldsHaveText
    rw [value.hasText_mute, Value.fieldsHaveText_mute]

end

theorem Value.render?_mute (value : Value) : value.mute.render? = value.render? := by
  unfold Value.render?
  rw [value.hasText_mute, value.render_mute]

theorem Value.isEmpty_mute (value : Value) : value.mute.isEmpty = value.isEmpty := by
  cases value with
  | list items => cases items <;> rfl
  | tuple items => cases items <;> rfl
  | record shape fields => cases shape <;> cases fields <;> rfl
  | _ => rfl

namespace Context

theorem item?_mute (context : Context) (path : ItemPath)
    : context.mute.item? path = (context.item? path).map (·.map mute) := by
  have hlist : context.mute path.list = (context path.list).mute := rfl
  unfold item?
  rw [hlist]
  cases context path.list with
  | list items =>
    rw [Binding.mute_list]
    dsimp
    split
    . rfl
    . rw [List.getElem?_map]
      rfl
  | absent => rfl
  | «variable» => rfl
  | flag => rfl
  | callout => rfl

theorem read?_mute (context : Context) (name : Bytes) : context.mute.read? name = context.read? name := by
  have hname : context.mute name = (context name).mute := rfl
  rw [read?, read?, hname]
  cases context name with
  | absent =>
    unfold Binding.mute
    dsimp
    split
    . rfl
    . next path hpath =>
      have := ItemPath.inner_length_lt hpath
      rw [item?_mute]
      cases context.item? path with
      | error => rfl
      | ok item? =>
        cases item? with
        | none => rfl
        | some item =>
          dsimp [Except.map]
          rw [read?_mute item path.inner]
  | «variable» value =>
    unfold Binding.mute
    dsimp
    rw [value.render?_mute]
  | list => rfl
  | flag => rfl
  | callout => rfl
termination_by name.length

end Context

namespace Stack

theorem read_mute (stack : Stack) (name : Bytes) : stack.mute.read name = stack.read name := by
  induction stack with
  | nil => rfl
  | cons context rest ih =>
    unfold mute at ih ⊢
    rw [List.map_cons, read, read, context.read?_mute, ih]

theorem bound?_mute (stack : Stack) (name : Bytes)
    : stack.mute.bound? name = (stack.bound? name).map Binding.mute := by
  induction stack with
  | nil => rfl
  | cons context rest ih =>
    unfold mute bound? at ih ⊢
    rw [List.map_cons, List.findSome?_cons, List.findSome?_cons, ih]
    have hname : context.mute name = (context name).mute := rfl
    rw [hname]
    cases context name with
    | absent => rfl
    | «variable» => rfl
    | list => rfl
    | flag => rfl
    | callout => rfl

theorem itemBinding?_mute (stack : Stack) (path : ItemPath)
    : stack.mute.itemBinding? path = (stack.itemBinding? path).map (·.map Binding.mute) := by
  induction stack with
  | nil => rfl
  | cons context rest ih =>
    unfold mute at ih ⊢
    rw [List.map_cons, itemBinding?, itemBinding?, context.item?_mute, ih]
    cases context.item? path with
    | error => rfl
    | ok item? => cases item? <;> rfl

theorem probe_mute (stack : Stack) (name : Bytes)
    : stack.mute.probe name = (stack.probe name).map (·.map Binding.mute) := by
  unfold probe
  rw [bound?_mute]
  cases stack.bound? name with
  | some binding => rfl
  | none =>
    dsimp
    split
    . rfl
    . apply itemBinding?_mute

end Stack

namespace Plan

def mute (plan : Plan) : Plan :=
  match plan with
  | scopes inners => .scopes (inners.map Stack.mute)
  | call effectful callout => .call effectful callout.mute

theorem once_mute (stack : Stack) (condition : Bool)
    : once stack.mute condition = (once stack condition).mute := by
  cases condition <;> rfl

theorem positive_mute (stack : Stack) (binding? : Option Binding)
    : positive stack.mute (binding?.map Binding.mute) = (positive stack binding?).map mute := by
  cases binding? with
  | none => rfl
  | some binding =>
    cases binding with
    | absent => rfl
    | «variable» value =>
      rw [Option.map_some]
      unfold positive Binding.mute
      dsimp
      rw [value.isEmpty_mute]
      cases value.isEmpty with
      | error => rfl
      | ok empty => exact congrArg Except.ok (once_mute stack !empty)
    | list items =>
      unfold positive mute
      rw [Option.map_some, Binding.mute_list]
      dsimp [Except.map]
      rw [List.map_map, List.map_map]
      rfl
    | flag b => exact congrArg Except.ok (once_mute stack b)
    | callout => rfl

theorem inverted_mute (stack : Stack) (binding? : Option Binding)
    : Plan.inverted stack.mute (binding?.map Binding.mute) = (Plan.inverted stack binding?).map mute := by
  cases binding? with
  | none => rfl
  | some binding =>
    cases binding with
    | absent => rfl
    | «variable» value =>
      rw [Option.map_some]
      unfold Plan.inverted Binding.mute
      dsimp
      rw [value.isEmpty_mute]
      cases value.isEmpty with
      | error => rfl
      | ok empty => exact congrArg Except.ok (once_mute stack empty)
    | list items =>
      unfold Plan.inverted
      rw [Option.map_some, Binding.mute_list]
      dsimp
      rw [List.isEmpty_map, once_mute]
      rfl
    | flag b => exact congrArg Except.ok (once_mute stack !b)
    | callout => rfl

theorem ofSection_mute (stack : Stack) (inverted : Bool) (name : Bytes)
    : ofSection stack.mute inverted name = (ofSection stack inverted name).map mute := by
  unfold ofSection
  rw [Stack.probe_mute]
  cases stack.probe name with
  | error => rfl
  | ok binding? =>
    dsimp [Except.map]
    rw [positive_mute, inverted_mute]
    cases inverted with
    | true =>
      rw [if_pos rfl, if_pos rfl]
      cases Plan.inverted stack binding? <;> rfl
    | false =>
      rw [if_neg (by decide), if_neg (by decide)]
      cases positive stack binding? <;> rfl

end Plan

end Mustache
