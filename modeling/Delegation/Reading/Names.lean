import Delegation.Script

/-!
# The names of the operations

Every operation has one name in the text of a program, and no name belongs to two of them.
-/

namespace Delegation

def Query.names : List (String × Query) :=
  [("list", .data .list), ("nth", .data .nth), ("add", .data .add), ("sub", .data .sub),
    ("lt", .data .lt), ("concat", .data .concat), ("eq", .data .eq), ("same", .data .same),
    ("display", .data .display), ("type_of", .data .typeOf), ("is_void", .data .isVoid),
    ("debug", .data .debug),
    ("is_identifier", .failure .isIdentifier), ("is_hook", .failure .isHook),
    ("accepts", .failure .accepts), ("fail", .failure .fail), ("raise", .failure .raise),
    ("error", .failure .error), ("err_note", .failure .errNote), ("err_strip", .failure .errStrip),
    ("err_trace", .failure .errTrace), ("trace_text", .failure .traceText),
    ("trace_len", .failure .traceLen), ("trace_is_empty", .failure .traceIsEmpty),
    ("mut", .table .mutable), ("const", .table .constant), ("computed", .table .computed),
    ("contains", .table .contains), ("contains_local", .table .containsLocal),
    ("cell_kind", .table .cellKind), ("symbols", .table .symbols), ("len", .table .len),
    ("is_empty", .table .isEmpty), ("parent", .table .parent),
    ("chain_scopes", .table .chainScopes),
    ("entity_name", .entity .entityName), ("type_def", .entity .typeDef),
    ("type_name", .entity .typeName), ("super_entity", .entity .superEntity),
    ("receiver", .entity .receiver), ("is_most_derived", .entity .isMostDerived),
    ("weak", .entity .weak), ("upgrade", .entity .upgrade), ("fields", .entity .fields),
    ("hooks", .entity .hooks), ("members", .entity .members),
    ("public_view", .entity .publicView), ("has_member", .entity .hasMember),
    ("supports_hook", .entity .supportsHook),
    ("binding_kind", .binding .kind), ("binding_name", .binding .name), ("arity", .binding .arity),
    ("owner", .binding .owner), ("captured", .binding .captured),
    ("callable_of", .binding .callable),
    ("frame", .stack .frame), ("frame_owner", .stack .frameOwner), ("current", .stack .current),
    ("frames", .stack .frames), ("depth", .stack .depth), ("stack_is_empty", .stack .isEmpty),
    ("max_depth", .stack .limit), ("capture", .stack .capture), ("attach", .stack .attach),
    ("builtins", .machine .registry), ("builtin_types", .machine .coreTypes),
    ("builtin_scope", .machine .registryScope), ("builtin_type", .machine .registryType),
    ("globals", .machine .globals), ("call_count", .machine .callCount), ("mode", .machine .mode),
    ("mode_limits", .machine .modeLimits), ("counters", .machine .counters),
    ("report", .machine .report), ("toplevel_frame", .machine .toplevelFrame)]

def Command.names : List (String × Command) :=
  [("scope", .table .scope), ("child", .table .child), ("declare", .table .declare),
    ("seal", .table .seal), ("get", .table .get), ("set", .table .set), ("chain", .table .chain),
    ("chain_copy", .table .copyChain), ("frame_chain", .table .frameChain),
    ("current_chain", .table .currentChain), ("private_view", .table .privateView),
    ("push_inner", .table .pushInner), ("push_outer", .table .pushOuter),
    ("pop_inner", .table .popInner),
    ("entity", .entity .entity), ("self_scope", .entity .selfScope), ("hook", .entity .hook),
    ("method", .entity .method), ("field", .entity .field), ("property", .entity .property),
    ("get_member", .entity .getMember), ("set_member", .entity .setMember),
    ("send", .entity .send), ("send_hook", .entity .sendHook), ("id_matches", .entity .idMatches),
    ("invoke", .call .invoke), ("function", .call .function), ("bound", .call .bound),
    ("closure", .call .closure), ("binding_call", .call .callBinding), ("lookup", .call .lookup),
    ("assign", .call .assign), ("call", .call .call),
    ("stack", .stack .stack), ("push", .stack .push), ("pop", .stack .pop),
    ("current_push_inner", .stack .pushInner), ("current_pop_inner", .stack .popInner),
    ("suspend", .stack .suspend), ("resume", .stack .resume),
    ("builder", .registry .builder), ("register", .registry .register),
    ("register_type", .registry .registerType), ("root_method", .registry .rootMethod),
    ("build", .registry .build), ("bootstrap", .registry .bootstrap), ("empty", .registry .empty),
    ("instantiate_root", .registry .instantiateRoot),
    ("instantiate_chain", .registry .instantiateChain)]

/-- No name belongs to two operations. -/
theorem nodup_names : (Query.names.map Prod.fst ++ Command.names.map Prod.fst).Nodup := by
  decide +kernel

def Operation.ofName? (name : String) : Option Operation :=
  ((Query.names.lookup name).map .query).or ((Command.names.lookup name).map .command)

end Delegation
