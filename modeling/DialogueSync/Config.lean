import DialogueSync.Cache.Memory
import DialogueSync.Text.Blank
import DialogueSync.Text.Numeral

/-!
# Settings of the programs

The settings of the server and of the client, read from named values such as those of the environment. A
number that cannot be read counts as not given; the address of the database has no default.
-/

namespace DialogueSync.Config

/-- A text that is given and not blank. -/
def filled (value : Option String) : Option String :=
  value.filter fun s => !Text.isBlank s

/-- A number below `limit` that is given and can be read. -/
def number (limit : Nat) (value : Option String) : Option Nat :=
  value.bind (Text.numeral? limit)

/-- The settings of the server. -/
structure Server where
  /-- Where the database is. -/
  databaseUrl : String
  /-- The number behind the colon of the address to listen on. -/
  socket : Nat := 8080
  /-- The largest number of connections to the database. -/
  maxConnections : Nat := 10
deriving DecidableEq, Repr

/-- Reads the settings of the server. -/
def Server.read (lookup : String → Option String) : Except Failure Server :=
  match filled (lookup "DATABASE_URL") with
  | none => .error (.missingSetting "DATABASE_URL")
  | some url => .ok {
      databaseUrl := url
      socket := (number UInt16.size (lookup "PORT")).getD 8080
      maxConnections := (number UInt32.size (lookup "DATABASE_MAX_CONNECTIONS")).getD 10 }

/-- The address to listen on, which is open on every interface. -/
def Server.listenAddress (s : Server) : String :=
  "0.0.0.0:" ++ Nat.repr s.socket

/-- The settings of the client. -/
structure Client where
  /-- Where the server is. -/
  baseUrl : String := "http://localhost:8080"
  /-- How many records the local cache may hold, if that is limited. -/
  cacheQuota : Option Nat := none
deriving DecidableEq, Repr

/-- Reads the settings of the client. -/
def Client.read (lookup : String → Option String) : Client where
  baseUrl := (filled (lookup "HISTORY_API_BASE_URL")).getD "http://localhost:8080"
  cacheQuota := number UInt64.size (lookup "HISTORY_CACHE_QUOTA")

/-- The empty cache that the settings ask for. -/
def Client.cache (c : Client) : Cache.Memory where
  quota := c.cacheQuota

end DialogueSync.Config
