import Cncpp.Machine.Word

/-!
# Redis connections

`RedisConn` keeps a hiredis context and the configuration for a reconnect.  The two
constructors, the two moves, `connect` and `select` treat these members differently,
so each is embedded with both.

The client library and the server are outside of the repository.  What they do is
given with every call: how `redisConnect` ends, and for every command that is sent the
answer to it and the database that the server has selected behind it.  Many commands can
select another one: `SELECT` itself, an `EXEC` for a `SELECT` that was queued, a `RESET`.
A context whose `err` is not zero sends nothing, and `redisCommand` returns a null pointer
for it.
-/

namespace Cncpp.Redis

open Cncpp.Machine

/-- `class RedisReply`, by `type_`. -/
inductive RedisReply where
  | nil
  | integer (value : Int)
  | string (text : String)
  | status (text : String)
  | error (text : String)
  | array (row : List RedisReply)

namespace RedisReply

/-- `RedisReply::isStatus`. -/
def isStatus : RedisReply → Bool
  | status _ => true
  | _ => false

/-- `RedisReply::toString`. -/
def toString : RedisReply → String
  | string text => text
  | status text => text
  | error text => text
  | _ => ""

/-- The test of `select`. -/
def isOk (reply : RedisReply) : Bool :=
  reply.isStatus && reply.toString == "OK"

end RedisReply

/-- `struct RedisConfig` with its defaults. -/
structure RedisConfig where
  host : String := ""
  port : Nat := 6379
  dbindex : Nat := 0
  deriving DecidableEq

/-- A command, by its words. -/
abbrev Command :=
  List String

/-- What the server does with a command: its reply, and the database that it has selected
for the connection then. -/
structure Answer where
  reply : RedisReply
  selected : Int

/-- `redisContext`, the place it was opened to, and the database that the server has
selected for it. -/
structure RedisContext where
  err : Nat
  host : String
  port : Int
  selected : Int
  deriving DecidableEq

/-- What `redisConnect` returns: a usable context, one with an error, or none. -/
inductive Opening where
  | accepted
  | refused
  | unallocated
  deriving DecidableEq

/-- `redisConnect`. -/
def redisConnect (host : String) (port : Int) : Opening → Option RedisContext
  | .accepted => some ⟨0, host, port, 0⟩
  | .refused => some ⟨1, host, port, 0⟩
  | .unallocated => none

/-- The context after a command was sent on it.  Without an answer the connection is
lost. -/
def RedisContext.answered (context : RedisContext) : Option Answer → RedisContext
  | none => { context with err := 1 }
  | some answer => { context with selected := answer.selected }

/-- What becomes of a command: it is sent on a context and answered or not, the call
fails without sending, or the behaviour is undefined. -/
inductive Outcome where
  | sent (context : RedisContext) (text : Command) (answer : Option Answer)
  | failed
  | undefined

/-- `redisCommand` and its variants.  They read the context without a test for null. -/
def redisCommand (text : Command) (answer : Option Answer) :
    Option RedisContext → Outcome × Option RedisContext
  | none => (.undefined, none)
  | some context =>
      if context.err = 0 then (.sent context text answer, some (context.answered answer))
      else (.failed, some context)

/-- `class RedisConn`. -/
structure RedisConn where
  context : Option RedisContext := none
  config : RedisConfig := {}
  deriving DecidableEq

namespace RedisConn

/-- `RedisConn::isConnected`. -/
def isConnected (conn : RedisConn) : Bool :=
  match conn.context with
  | some context => context.err == 0
  | none => false

/-- `RedisConn::command`. -/
def command (conn : RedisConn) (text : Command) (answer : Option Answer) :
    Outcome × RedisConn :=
  let (outcome, context) := redisCommand text answer conn.context
  (outcome, { conn with context := context })

/-- `RedisConn::select`; no result where `command` throws. -/
def select (conn : RedisConn) (index : Int) (answer : Option Answer) :
    Option Bool × RedisConn :=
  match conn.command ["SELECT", toString index] answer with
  | (.sent _ _ (some answer), after) => (some answer.reply.isOk, after)
  | (_, after) => (none, after)

/-- `RedisConn::connect`.  The first component says whether it returns; otherwise it has
thrown.  The result of `select` is not used. -/
def connect (conn : RedisConn) (opening : Opening) (answer : Option Answer) :
    Bool × RedisConn :=
  let opened := { conn with
    context := redisConnect conn.config.host (int32 conn.config.port) opening }
  if !opened.isConnected then (false, opened)
  else if conn.config.dbindex = 0 then (true, opened)
  else
    let (selected, after) := opened.select (int32 conn.config.dbindex) answer
    (selected.isSome, after)

/-- `RedisConn::checkConnection`. -/
def checkConnection (conn : RedisConn) (opening : Opening) (selecting : Option Answer) :
    Bool × RedisConn :=
  if conn.isConnected then (true, conn) else conn.connect opening selecting

/-- What `command_v` and `command_argv` do with the command they are given. -/
def checkedCommand (conn : RedisConn) (text : Command) (opening : Opening)
    (selecting answer : Option Answer) : Outcome × RedisConn :=
  match conn.checkConnection opening selecting with
  | (false, after) => (.failed, after)
  | (true, after) => if after.isConnected then after.command text answer else (.failed, after)

/-- `RedisConn::command_v`. -/
def commandV (conn : RedisConn) (text : Command) (opening : Opening)
    (selecting answer : Option Answer) : Outcome × RedisConn :=
  conn.checkedCommand text opening selecting answer

/-- `RedisConn::command_argv`. -/
def commandArgv (conn : RedisConn) (text : Command) (opening : Opening)
    (selecting answer : Option Answer) : Outcome × RedisConn :=
  conn.checkedCommand text opening selecting answer

/-- `RedisConn(const RedisConfig&)`; none where it throws. -/
def ofConfig (cfg : RedisConfig) (opening : Opening) (answer : Option Answer) :
    Option RedisConn :=
  match connect { config := cfg } opening answer with
  | (true, conn) => some conn
  | (false, _) => none

/-- `RedisConn(const std::string&, int)`; none where it throws. -/
def ofHost (host : String) (port : Int) (opening : Opening) : Option RedisConn :=
  let conn : RedisConn := { context := redisConnect host port opening }
  if conn.isConnected then some conn else none

/-- The move constructor: the new object and what is left of the other. -/
def moveConstruct (other : RedisConn) : RedisConn × RedisConn :=
  ({ context := other.context }, { other with context := none })

/-- The move assignment between two objects: the target and what is left of the other. -/
def moveAssign (target other : RedisConn) : RedisConn × RedisConn :=
  ({ target with context := other.context }, { other with context := none })

/-- The connection is lost: the next use of the context sets `err`. -/
def lose (conn : RedisConn) : RedisConn :=
  { conn with context := conn.context.map fun context => { context with err := 1 } }

end RedisConn

end Cncpp.Redis
