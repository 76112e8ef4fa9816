import ClassInstrument.Policy.Editing
import ClassInstrument.Policy.Fault

/-!
# Shielding methods from their exceptions

A shielded method catches everything that is thrown in it, passes it to a handler together with the
receiver, and returns a zero value.  A method that is no constructor also returns early if the
handler says that the receiver is crashing already.

Which methods are shielded is decided by annotations on the method and on the class, and for some
callbacks of listeners, tasks and handlers by their names.  Views are treated in another way: a
direct subclass of a framework view gets a safe superclass instead, and the callbacks that the safe
superclass intercepts move out of its way under other names.
-/

namespace ClassInstrument

/-- Shielding of methods. -/
structure CrashShield where
  /-- The internal name of the handler; without one, markers come off and nothing is shielded. -/
  handler : Option String := none
  /-- The descriptor of the annotation that asks for shielding. -/
  enable : Option String := none
  /-- The descriptor of the annotation that forbids shielding. -/
  disable : Option String := none
  /-- Are all constructors shielded? -/
  constructors : Bool := false
  /-- Are views treated in their own way? -/
  views : Bool := false
  /-- The safe superclasses of framework classes. -/
  safeClasses : NameTable String
  /-- The packages whose classes are left alone, as java names. -/
  ignoredPackages : List String := []
deriving Repr

namespace CrashShield

/-- Is told about everything that is thrown, with the receiver. -/
def handleThrowable : Callback :=
  ⟨"handleThrowable", "(Ljava/lang/Throwable;Ljava/lang/Object;)V"⟩

/-- Is told that a method has finished. -/
def methodFinished : Callback := ⟨"methodFinished", "(Ljava/lang/Object;)V"⟩

/-- Is asked whether a receiver is crashing. -/
def isObjectCrashing : Callback := ⟨"isObjectCrashing", "(Ljava/lang/Object;)Z"⟩

/-- What the names of callbacks start with that have moved out of the way. -/
def safeStart : String := "safe_"

/-- The root of the framework's views. -/
def view : String := "android/view/View"

/-- The root of the framework's views that hold other views. -/
def viewGroup : String := "android/view/ViewGroup"

/-- The root of background tasks. -/
def asyncTask : String := "android/os/AsyncTask"

/-- The callbacks of views that safe superclasses intercept. -/
def viewCallbacks : List Callback :=
  [⟨"performClick", "()Z"⟩,
    ⟨"onMeasure", "(II)V"⟩,
    ⟨"onDraw", "(Landroid/graphics/Canvas;)V"⟩,
    ⟨"onFinishInflate", "()V"⟩,
    ⟨"onLayout", "(ZIIII)V"⟩,
    ⟨"onSizeChanged", "(IIII)V"⟩,
    ⟨"onKeyDown", "(ILandroid/view/KeyEvent;)Z"⟩,
    ⟨"onKeyUp", "(ILandroid/view/KeyEvent;)Z"⟩,
    ⟨"onTrackballEvent", "(Landroid/view/MotionEvent;)Z"⟩,
    ⟨"onTouchEvent", "(Landroid/view/MotionEvent;)Z"⟩,
    ⟨"onFocusChanged", "(ZILandroid/graphics/Rect;)V"⟩,
    ⟨"onWindowFocusChanged", "(Z)V"⟩,
    ⟨"onAttachedToWindow", "()V"⟩,
    ⟨"onDetachedFromWindow", "()V"⟩,
    ⟨"onWindowVisibilityChanged", "(I)V"⟩]

/-- Views of the framework without a safe counterpart; their subclasses are like other classes. -/
def excludedViews : List String :=
  ["android/widget/AbsoluteLayout",
    "android/widget/AdapterView",
    "android/app/FragmentBreadCrumbs",
    "android/widget/GridLayout",
    "android/widget/SlidingDrawer",
    "android/widget/Toolbar",
    "android/media/tv/TvView",
    "android/widget/TextView",
    "android/widget/ImageView",
    "android/widget/AnalogClock",
    "android/inputmethodservice/KeyboardView",
    "android/app/MediaRouteButton",
    "android/widget/ProgressBar",
    "android/view/SurfaceView",
    "android/view/TextureView",
    "android/view/ViewStub",
    "android/widget/DialerFilter",
    "android/widget/TwoLineListItem"]

/-- Callbacks that are always shielded in certain classes. -/
def watchedCallbacks : List Callback :=
  [⟨"onClick", "(Landroid/view/View;)V"⟩,
    ⟨"run", "()V"⟩,
    ⟨"onPreExecute", "()V"⟩,
    ⟨"doInBackground", "([Ljava/lang/Object;)Ljava/lang/Object;"⟩,
    ⟨"onPostExecute", "(Ljava/lang/Object;)V"⟩,
    ⟨"handleMessage", "(Landroid/os/Message;)V"⟩]

/-- The types whose subtypes have their callbacks shielded. -/
def watchedTypes : List String :=
  ["android/view/View$OnClickListener", "java/lang/Runnable", asyncTask, "android/os/Handler"]

/-- The safe superclasses that are used if no others are given. -/
def standardSafeClasses : NameTable String :=
  NameTable.ofList
    [("android/view/View", "com/facebook/ads/internal/shield/SafeView"),
      ("android/view/ViewGroup", "com/facebook/ads/internal/shield/SafeViewGroup"),
      ("android/widget/RelativeLayout", "com/facebook/ads/internal/shield/SafeRelativeLayout"),
      ("android/widget/FrameLayout", "com/facebook/ads/internal/shield/SafeFrameLayout"),
      ("android/widget/LinearLayout", "com/facebook/ads/internal/shield/SafeLinearLayout")]

/-! ## Which methods are meant -/

/-- Is a method a callback that safe superclasses intercept? -/
def isViewCallback (name descriptor : String) : Bool :=
  viewCallbacks.contains ⟨name, descriptor⟩

/-- Is a class a view, judging by everything above it? -/
def isView (closure : List String) : Bool :=
  (closure.contains view || closure.contains viewGroup) &&
    !excludedViews.any closure.contains

/-- Is a method a callback that is always shielded?  Callbacks of background tasks are known by
their names alone, since their parameters vary. -/
def isWatched (method : Method) (closure : List String) : Bool :=
  match watchedCallbacks.find? fun callback => callback.name == method.name with
  | some callback =>
    (callback.descriptor == method.descriptor || closure.contains asyncTask) &&
      watchedTypes.any closure.contains
  | none => false

/-- Takes an annotation off, if there is one to look for. -/
def stripIfGiven (marks : Marks) : Option String → Bool × Marks
  | some descriptor => marks.stripAll descriptor
  | none => (false, marks)

/-- Takes the marker annotations off and gives the decision they express; asking for shielding wins
over forbidding it. -/
def takeDecision (shield : CrashShield) (marks : Marks) : Option Bool × Marks :=
  let (enabled, marks) := stripIfGiven marks shield.enable
  let (disabled, marks) := stripIfGiven marks shield.disable
  (if enabled then some true else if disabled then some false else none, marks)

/-! ## Shielding a body -/

/-- Puts everything from a position on under a handler that reports and returns a zero value. -/
def protect (body : Body) (start : Nat) (owner descriptor : String) (isStatic : Bool)
    (handler : String) : Body :=
  let (entry, body) := body.freshLabel
  let (catcher, body) := body.freshLabel
  let body := body.insertAt start [.label entry]
  let body := body.append
    ([.label catcher, Editing.loadReceiver owner isStatic, handleThrowable.call handler] ++
      Editing.defaultReturn descriptor)
  { body with
    handlers := body.handlers ++
      [{ start := entry, stop := catcher, handler := catcher, caught := some Name.throwable }] }

/-- Returns early, in front of everything else, if the receiver is crashing. -/
def guardReceiver (body : Body) (owner descriptor : String) (isStatic : Bool)
    (handler : String) : Body :=
  let (skip, body) := body.freshLabel
  body.insertAt 0
    ([Editing.loadReceiver owner isStatic, isObjectCrashing.call handler, .jump Opcode.ifeq skip] ++
      Editing.defaultReturn descriptor ++ [.label skip])

/-- The method with its body shielded.  A constructor is protected behind its delegating call, and
left alone if that cannot be singled out. -/
def shieldMethod (decl : ClassDecl) (handler : String) (method : Method) : Except Fault Method := do
  match ← decl.decodeBody method with
  | none => return method
  | some body =>
    let isStatic := method.access.isStatic
    if Name.isConstructor method.name then
      match DelegatingCall.find body decl.name decl.superName with
      | .unique call =>
        return method.withBody
          (protect body (call + 1) decl.name method.descriptor isStatic handler)
      | _ => return method
    else
      let body := protect body 0 decl.name method.descriptor isStatic handler
      return method.withBody (guardReceiver body decl.name method.descriptor isStatic handler)

/-! ## Views -/

/-- The constructor with its delegating call led to a safe superclass, if it calls the superclass at
a single place. -/
def retarget? (decl : ClassDecl) (safe : String) (method : Method) :
    Except Fault (Option Method) := do
  match decl.superName with
  | none => return none
  | some superName =>
    match ← decl.decodeBody method with
    | none => return none
    | some body =>
      match DelegatingCall.find body decl.name (some superName) with
      | .unique call =>
        match body.instructions[call]? with
        | some (.method opcode callee) =>
          if callee.owner = superName then
            let instructions :=
              body.instructions.set call (.method opcode { callee with owner := safe })
            return some (method.withBody { body with instructions })
          else return none
        | _ => return none
      | _ => return none

/-- The name that a callback of a view has after it has moved. -/
def movedName (name : String) : String := safeStart ++ name

/-- An instruction with calls of the superclass's view callbacks led to their new names, and to the
safe superclass if there is one. -/
def rerouteInstruction (safe : Option String) : Instruction → Instruction
  | .method Opcode.invokespecial callee =>
    if isViewCallback callee.name callee.descriptor then
      .method Opcode.invokespecial
        { callee with name := movedName callee.name, owner := safe.getD callee.owner }
    else .method Opcode.invokespecial callee
  | instruction => instruction

/-- Does an instruction call a view callback of the superclass? -/
def callsViewCallback : Instruction → Bool
  | .method Opcode.invokespecial callee => isViewCallback callee.name callee.descriptor
  | _ => false

/-- The method of a view with its calls of the superclass rerouted, under its new name if it is a
callback itself. -/
def moveViewMethod (decl : ClassDecl) (safe : Option String) (method : Method) :
    Except Fault Method := do
  let rerouted ←
    match ← decl.decodeBody method with
    | none => pure method
    | some body =>
      if body.instructions.any callsViewCallback then
        let instructions := body.instructions.map (rerouteInstruction safe)
        pure (method.withBody { body with instructions })
      else pure method
  if isViewCallback method.name method.descriptor then
    return { rerouted with name := movedName method.name }
  else return rerouted

/-! ## Classes -/

/-- What is known about a class before its methods are looked at. -/
structure Setting where
  /-- The decision of the annotations on the class. -/
  decision : Option Bool
  /-- The class and everything above it. -/
  closure : List String
  /-- The safe superclass for the class. -/
  safe : Option String

/-- Treats a constructor. -/
def applyToConstructor (shield : CrashShield) (decl : ClassDecl) (setting : Setting)
    (handler : String) (method : Method) : Except Fault Method := do
  let retargeted ←
    match setting.safe with
    | some safe => if shield.views then retarget? decl safe method else pure none
    | none => pure none
  match retargeted with
  | some method => return method
  | none => if shield.constructors then shieldMethod decl handler method else return method

/-- Treats a method whose markers have been taken off. -/
def applyToBody (shield : CrashShield) (decl : ClassDecl) (setting : Setting) (handler : String)
    (decision : Option Bool) (method : Method) : Except Fault Method := do
  if Name.isStaticInitializer method.name || !method.hasCode then return method
  else if Name.isConstructor method.name then
    shield.applyToConstructor decl setting handler method
  else if shield.views && isView setting.closure then moveViewMethod decl setting.safe method
  else if isWatched method setting.closure || decision.or setting.decision == some true then
    shieldMethod decl handler method
  else return method

/-- Treats a method. -/
def applyToMethod (shield : CrashShield) (decl : ClassDecl) (setting : Setting) (method : Method) :
    Except Fault Method := do
  let (decision, marks) := shield.takeDecision method.marks
  match shield.handler with
  | none => return method.withMarks marks
  | some handler => shield.applyToBody decl setting handler decision (method.withMarks marks)

/-- Is a class one of the safe superclasses? -/
def isSafeClass (shield : CrashShield) (name : String) : Bool :=
  shield.safeClasses.any fun entry => entry.2 == name

/-- Treats a class.  Interfaces and safe superclasses only lose their markers. -/
def apply (shield : CrashShield) (catalog : Catalog) (decl : ClassDecl) :
    Except PolicyFault ClassDecl := do
  let (decision, marks) := shield.takeDecision decl.marks
  let decl := decl.withMarks marks
  if decl.access.isInterface || shield.isSafeClass decl.name then
    return { decl with
      methods := decl.methods.map fun method => method.withMarks (shield.takeDecision method.marks).2 }
  else
    let safe := decl.superName.bind fun superName => shield.safeClasses.find? superName
    let setting := { decision, closure := catalog.closure decl.name, safe }
    let methods ← decl.methods.mapM fun method =>
      (shield.applyToMethod decl setting method : Except PolicyFault Method)
    let superName := if shield.handler.isSome && shield.views then safe.or decl.superName
      else decl.superName
    return { decl with methods, superName }

end CrashShield

end ClassInstrument
