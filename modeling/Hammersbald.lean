import Hammersbald.Bytes
import Hammersbald.Page
import Hammersbald.PagedFile.Appender
import Hammersbald.PagedFile.Invariant
import Hammersbald.PagedFile.ReadYourWrites
import Hammersbald.PagedFile.Reopen
import Hammersbald.PagedFile.Truncate
import Hammersbald.PagedFile.Iterator
import Hammersbald.AsyncFile
import Hammersbald.MemTable
import Hammersbald.SingleFile
import Hammersbald.SingleFile.PageStore
import Hammersbald.DataFile.Writer
import Hammersbald.DataFile.Reader
import Hammersbald.DataFile.RoundTrip
import Hammersbald.DataFile.Termination
import Hammersbald.DataFile.Stream
import Hammersbald.DataFile.PageCrossing
import Hammersbald.DataFile.Sessions
import Hammersbald.PageDb
import Hammersbald.Api
import Hammersbald.KeyValue
