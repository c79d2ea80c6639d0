/-!
Names of musical and mathematical characters, pictures and tags, with the codes from 1D100 on.
-/
namespace InlineMarkup

def pictureNames : String :=
  "'7wmQ5mtXo`tb%2|EIH0[V~n]QV$bJXWWaCRpGS4z0&Y>s;P1dIx[4|Vej&QjxF1A@hu:eDt^$)+|Fi(x.JYYf>@+H&=q7y%8*R81S.Z'%n[VI7<7rJ
ho<gszh@qAd@a5FOYPT4[[an6]RXwv9HaN~Ya>@q[b')f/q_:gGbb;Y*HvO_*$!V9[Dl]3TF[7r2$pTH9D=!IX|,D28_DRL*[dVCTmfGQ.05_U~P.Xb[eW
up'Duv@f2TKiVcjzQ5aRxP*;+|~(Lf5J|`/!vY~_zJxy_2rULiU+[5gI.P`.|IjvNtE:zM1k|8/7x)4d0n~G&[|Hx]nkqSbanx?N3Y$DxmqR;^a1Nhx'c:
6b[m<Kkvoyzu.ytSm;qH4g=>dtE@kZK(FQYYA`ND]<zO:D.eyVWr0?|R|BW7^W1FAy.NK~Z]mAqkiCYnrhxB]sRaBiV1JD'r$'zg0xT[d;+QU$Oe@43g9H
SX?t%u8e!B7USrTB'5*!nAm))Pc!!5^L*Lln69&]bS.>Y!6gx,.9]fdSppWov^NLEjAP'o$+K8rxG6/9r`HTYD'HtW*~Z22]=6VX*.$J;qgsly[5ZS>LGk
W:*%YhQ@:GzqP)YoTvd3qy)?4y`E[5dA!=@0B3WK,?'wJwbtST_(oZ=pV`m@+:I5ReMbJA6>$k9Bv|zL=u3Z[*Uxt?'O:e0XcuapX1j&W*YxyNt[2Nw8OJ
A%7qqe&B)[&VB.M$%PuckCEcVf;^zS&ZONW5n2&xv1(YN;`~Ooj:1DsPdH]4S~?D(^~hJIv1*u([!]_WOFL4kYKwftRZpzu^Amq=,5eVms2TD@V]oIw.k9
O(Eu,@A&(JI<a.Lle+dJ_4K@CweMg?!nb;KL1+h>Ly90I0>sZ]]rpFaRi0q=P5C)SQ[1[;1<Lyio^bCW%topa3@CEb~biq;NL64NE/0]zlJvU*I=M^Pj;j
egR>I8KO3e0w~L&sA]Zj%Dnw:gEHSkgDdY~V?l1+7(Zi7$7HASC.?*RYzk8nGg9a:N!sg=f`LgJMo=k6V]e2t7B+tp+w:LbHa3L'vY3YOh34A:^b:CSecW
5(&kzqyqwUXAr>*c;HP|4gFF%5:J.YiVYEE)qj1m!TMT0uhgOP*xmoETeq[ZvIE|swA@mVokCY*M+ga:;7O<WPUv|:j_:7HOomaKBJrZ'z?f.2$:7GGQdO
+KL=vxcZl~wn7vkO>HKy!fV>)_SJ`g`S_]RLW9]!L|X;I)NoQF!rm2nRX%+4~grAS]J$l_f<(8'8;T3Q4;tohUd67Em:gJ5F5F2zSmy_?4tGna;AQTV[@Z
4eIRF=fyW]sze%eUY7!<rW]S3oBe.YSGHor~fn,|R~:E/`Qy9X*cw6:Q,Jj,qDFr19TVNwr::<&1.G:<uaf!FYadVy7xtGO@+k$Aoz,h88+K!^QU^xidEg
|(Yv%g^W4xMk!EH_F`<Qc*sJ@f>W>)(&37xyveauZgs?+LXYnN;$7@3^=)Tf4o^5GfPR.O`F%?nf*%;j,;XX*lObbs_Ylk&Q!pZmldfV;LVGB0T,b=F%bc
KqR.Q)c!$^6_:43%Ruj%O+OE*~RsoTK0z`WoJu=>qb34c<$B'+JCYzVl&F|ifrFmfCY]AuBj0=<*6;Fx>1A'ClyvFG~jlwnYmtiEBodnC,Dvh7CXuI=n%5
kUq)YWbC$N@O*apG:V?3Uy<2Z1G(r&%Q(.i6xk>k5|*CzM<o2%?LS>IZjSARC@Lss_CxKH(*i2&LmQ.su<W2x+smh&UnDeDT>!Ua9Xkt8AdV&@N[K!bi;|
]:SqDN=fMJYoBjUfa05;X1<b@5y*ttZ2^^!]%tyalx6.y~KO$4B_'6gyg9[cAYZ4U5&g=_wUA32(OBBr2fAAANLnTnkWqOB*VImU`^3[Bh(1nC9pckj^/I
+fXdpx0>DaBi_FYxscQA^&GWO$twXpMl4Nf+ccxnHE|o2,<&)[LA]v:&fu=hFRh*')GJ=hw](+s9<)$Sf5q,Rkb_>RCS$HriYDqBF?Tr/K=!MzTS6q_W)U
Y2w5C5+M9rVq;v9'NN:NsNveGtR~M~mlAMhoM/s^/(6x@vlwy+[@0a:$OocI'Zg!XAk^~bQod*2D+p:jwgXG)mfpRD)'z1?dHcvCsR~HM9QK&KSFBa>~<o
KXRm~WO&nN$2zS8D[[Qs!r@C'w)T_RbWnIWA|aD9!UmQ;TJ_$!X/uts1|5Rnq&F0A5o?i(62poS2DP(rAe?('INw.ziH^C&QFZt/AprBJU!^rLZ<jr49(n
kWyksH9/0(F~]Y>iswF?s%^Bc:[uNr>@:VVuZ4Aoc8[@/TF(6TsaH+F1Vc!mzn(c7A!`Nyz'A:&=;]Xk1ovCHfL(_2b_3u1Y?I;%x8Gu*R)GTcx022UcOe
R6=B8.mIx.^!L[f5O9lXe$LfM(FKO4JRGhj)[dkSfveb^mzO6pS^&19ue9e3IqZ+Tza6+^Aorr!;@y*F2OKSUg@|x%u+TK6+%/Zho2w8~7(`l1kYXIV^,%
0*sed&Ba2&kL.'A=/ApmWyA0[[5Oit:iQx8!iJL^!c0v9y2`Q9x02F*&oRl$wm9lZ^I*,eG[D@D&`TiIDEoBOgmWynDX~;oEi:ni^DsToLsO$TRJVfeR3]
$l5A?QEs^]>MGEIaOID_[`2>h9bU^3(EE_(2il5<4@0Ys[i:_9m[B*KeR>M'_!c*Wc=z`q/8PYel=*[)d0'Jyacz'qrY+UE:=E/FKLp.u_;iKaZ:TW5.U;
'gB1is$'/W03cWhB@zVYIAwiFX,xNwjli;jOJsO^Qc4[FW$2|MAo$7My@PCDH@sXE(KE<'V9~?NT2`FV&B!R83U>KxSo:%q:R@l&IOw0>vWJbTLpZWqg^2
OF_<b^v6'/xuzR$pf<,:[aoW93W?[F;5RWq$UluUe9;cxSKLoh|[K1y6d`QJwuvxFn<U7lOj12><gaPJAtV.dGWv8t[s8*>HgzLoFK)E<%`g:C^;vNHcoj
&(]3V6W+l+Zeie!cWolRb`nX/wC:LhLWk%ci/wD^<<?s&<L/o.qf=de5*+&!U024dAifI+tF4b5:FyuRj+F^=9[gWfSM8kU,6m5~1rpcdZ!z'YsMFd<O9o
Y)&QN_4yOF^opb]cuIPsr9mC.KW3@=o$`xHe!`[*@)`O16N?J8S:9]!)uck7_|Df>HZQY.|LomT$off8;Z~Hoy,@E`Lj@S>+p&aFyEgcV+TD)![!R!txW(
Xho|D<5JuhOu'`LULch;kJ53H(o?<&e0ISb^]w,D[arbZ^pv`Qr`7LK,:xvD':bB:g'X_DlAb:9v*&=*M0/<BP]y5h`~s:[T6!3IaWqX[xi~R0xIrl~rm(
`b8]<Z`^msKN:d.z1XP5Ghw$3=<2:cCyw*|v5EDTOa@&e~VMcC5gC6U:nW;0u'u^z1E6N^!QPe~Xyc/0EMQy'|k(2!|J/Yb(@uU`Bkbk8dps;|XJ2v)C,/
V45vY;roXpS&`CwJOQ9CXK*<vD*JM`Pig5`tMcQTAt8LKvXi/@.RXy5Jg=|SEyZkf90B1nN0xOYI'bm|CcX,4wp:id`B4f6gjvmSdZ?mW,SxZ!h/3Os`Gs
`*SiFTTD5dJ=!zjd70Vkxl$=(@umr9|+~91H@hD;ZZ51pLSr.2*ohZSZ)[11;rztwB3%Lvw1lo!!3XE>aQ:)`F?yG?62<]SP+LU]k0dY=WvY:%e5)Yw26e
uhP_b5n_B88)hBl^pEp0/bVJ3M'ub%2h>BSXYwskG>X1lc00Be$$ki,ld*t7lmzv;:nfch&>g&BqEvOYMt,U(8'>^y$uyh+)PWrUl%Y!X@HUf>qICSWfOG
Ka@g,2b5qJ1x<Bjza_b!ez|>mpR*>:i@2FJeiDJP7Z+Ey81@zG2y&HhGVSlkjrl6;4yVoc?^jz+0x`JHUyfzfE=TwhnKcy2iGz2*I!DW$KA`=|CT:ZTmzb
;g/(0E`PbPEFA8h+UGI]V87X,:FktC@3?M|RXnAa8]STc7+r/f]Z*gEH(9%=6LL$|O),[QJ),gh*ZJ>4xMiU]L/A!S4EE?80w]skvL:O6TZ:h$W(G!a^W!
WA4%5_vu81mQ[jd>Wz$.PI(42Zi4ouP!hxL27tg04;%h^AP2pVc0wkU,i>UkxtR!+&&=4uOgv3p:(=q_gy.%w,NaOXtQ_;jD7:MS6v;D:>S_/J7o()$yuf
W8$BovNaYJkkOx(bYQrQ$Ozs[7//3u*0)3oyGNpx6&Y4Aoj:H:inh@5XgbTakuD3S@LuA<~O1@a.63F[SOIXjBQY9e~&LIr.4BnB(&5:uSxlaCjzd1I6<p
MjWVB@KxOP.)SlF&Ft/yh;yyQPR?F'W(gB'Hmm:8ff0c5%IJ~9V<oOP:vw*10yj|,Bl8GP9ig`rG08siq&,`Iu&ogiX^(a6GiH9lV9v%Iv/^?Lr_p@)+)G
n.w>rW7Q]C2N?|>ZV~30mp5ZB$WvFZSnhztyhucGl6Npdb:'6D(<H6|jmpFU36o:AF=gZYU>]8[a2YI+7$[t1$9BH7$6cE&'<D79Bk%7dPEtIoezo^7[By
5R!BFyl::g]zlrt/q_a8pS92wws+.iMJ7svjHfUQF6]yjVDebtnB@ok=:PysP0*r(6.A5(u!fHIJ2LRrk|pt9/tkdRMYK;PB>xkFkm>B5Ek^0Oy>K~K&c)
J4jF^j^Js9@/1&9eprG_dU3[HQ@e~l4ht9]W9Js/0qC:nI_7k_S`p=6y4=m6a0P)t2OwdDe,piCjJ5Z>ZxeIVLCM`182%W6ccOH+O?X*4,8hUOS/xMx1~s
rd~'Hx/xA<Eb9K_*G'01!C.b~Wu%PYI,.W$aH;nBGMW;9F,fl]D3e+sCP(C*_[FOP=U514=9~77Q8R9I/L2Sx'D42lgtvl$E3RHlo6>g^i23Dn*vb=tzu_
Z]L'AtF.i4y+dF&|!lE3rtgmU8`o4%3MCJ!eh`!yk2mb>7Iba2^pF$Jr_u_sb$[0xD;Wg=xNsyUR>TCppZWldsBGt^=M!xUASwOi&gYYF9Hi<)KI|z'/M0
K^6^juz&Rs3+Dr2IQFZSFh+?P3OfU@=$MM>tIBM5AC$Zu50t!RMWeJs_qc_CSgHU<N40.r|Fv'ij^V|lGh^SB]3[m_v7e0B;v52c>4~luD<:]vzF3vKy.H
Y+..,+x8`0t2k31cN9tsulsD=k'~;q'~wy7i<YYLW8FOy?yoj]N9*sxR0%w7lpGbB%)Hp8Y33P2c16:k[d9o@T%FzBnmJwoJ~yg4j_;7x>_u@OkI`T`~:?
lS;O:V%oPZFaamRKsJH7c6L2Vb3exJQB!o>'&h^b%xZ~mu=/aPY>!=OL<E8ZAZX~J3Q(xME(fs)^mnC`K|uBaLA+tjvew^Iktk3WrJjA!k3E@ZDxmn)Otw
J'v1cIpaf/K)d=sn9|Jp^|c['x1vDc0'q.%?(P%5=tZ+Ar6vj/r>wR>=p$ssIr?rx@_h[?2hj|4h%/jdJRy(fs3?oc0,6!C^78c+|K_?d`9[Byz,+iUYPN
j1P5tT3O+GRUCfxZH3o'Z<>abWeD$CDk]J'5>O*Q(;?BBUtLUI$[8a3(*GV(bv[t;FigDaDucL6ajJTdGfj9`)4E[=3Ya?gK9_qyxS0*r)n&E5IgW?qH>:
P?(|M<fo)'bC9[6$KHm)s'Emv60'M,njovmBzJeU,9sYc!H?$y26JOJ2~>M)/(++b7<i,e/0QAM/MgXQ/_nPFNiX~sv~$@;]@G';C,$cL3$qJ_9l<9zO|5
inr($_kC|G`?~|<9gRap^J,eb~`p=5~Za49Dl@I|9*KmS?vOE3M:bvXE04o&x@xFZkrljJ3pA*j&OF^?w^|L@iM0CQc=ZNcJilL'XNs&ar!='QE1Lr8|zt
!XSOtN[&;Y[,*JN2RpOoqyaZ.R.!+=<%],2.bbC0_Yq.w7ej~.+RYGE2*`nvV.SC~QU^IFDb%bgN1x^ab[EQF.s8b$Fk(O8y$m>Pd&uYm9v|r+08JdsPT5
$AepU7:~>Ri@VW)p%U5Fh^&&<B|ROHwsH<TfxI5P[:Q$iu%/u:bqh6V`L[&E=faovqfCbq!NOYAy5r:rAw[r~?kXx_i;*fyJbtXq!bP%|c9|Ow=VVzF=uC
_<CQEE4;7T6v3cFe^p,P+`.,vxdXw@@`$7'g8m;lGNAphl^hcVQIz+h*<5=>'wlvS+HAWK7]c!DvaCS=*%R::*,H^R:kk4|vmP!00OnM.67h?qE[bIBwTe
|HZ.'~cCh7*JA]Z:Q:7zAS<35J>c4jR3:$g[,$`1_e7hf,s|;z~%NTO,I6&@yLVs7]NQ6$[3>>hM,w^h]X>=QF9mkelXr0wtYAt7n`?qD=6l8'w6&hO.X.
.xW8[wZEl)iLnH)wYvfnHt9O&=hF4$+od9KLx4;uPw`?mDwXIu^Ja:Y[n8hh67k9fmW5,U=JP?+?_!Ol%l6PtaG]Wv0T&Yh*Jp0Xy1*1TJrCj(<<Umpg,1
O=.u3a_5,HW*d^)4sR^Abhht<)=$M?7U=Af_e*Hy1'??q|BfNwR]bkE'(W2Th>A(3Gs=xnN~LVR@v8?:>/.fcF5]%3'Md=QZ31c=ygA3/D(lVJ3Ceqe3a5
t=JbJQI87?&;Y1m0Y?u36kU*b(c4jtc]RdD;;*J6bl,GIqP?K,?:T4BT;N@[^u;lJ3[H0g%dD$CYU/UFwHMzvv$ob,D`]0tCgJ3koElqzWl.wgY1H1RO,;
1MtD&']|=&FDUE|J6Zc5hIGHHE%p%NJe/uN1*dt]pqY'SpV08A^GR=U7D7mi(D@k^g9;SK7[FdzrTR:t%f,X705=9`REVa*eRgpfPeWd%&bt,[pXH>)`Ct
f.1]8^z>._qjR67g;J%VmUn'FL9t+e$jHI(KP]7)qr@)'!&qSa.^0:oL>5z,ZyKmF/ocKA%x=]=^j*@s0tkn@7uH,Y(zTG,rO$VholW8n=l2Y<lyL24uJR
Lb6B|Te*/b3tQ2~duqyM(r*u|5xElm>a!eS()X2OSAz,NLD6:?!/KMT=<hJAzbAFx$![tv*])^,n4jtL+pDfKP*S5^.U'sC;gN]ARc0/FI:O1R1[t@Gnup
?jj2`q9H:x]by0+CMaW.<b]TIjb]Ax6FM+01Py6IYn,y/Cqb?kLk^sMSiam1i=4!R,MQlboYo`=P`%$B_i/M?j(~3a^;snUPE47'OP+=Euxuw,!8<tamyu
OSN3Do~6IN@MiPoM|.w&JsCy$C+`xUvXA9_(Dsa8&2z,_*hL9ODP]Utw@l:bp['aG)tT_3kMo<Cog)]h8>z&LO8il0,e4GBHQ3>P($XX<`Cw;'duN;5)Mp
j)[[,GI<o&lB,Ea|5L8OZzTF`N,xT3n1g*S1j9fS!ub.LCp`>ZG/rw80NLrQ35t8WcH[euC+7vT%9>R%0:[f(+YJ'5O!4On>bbc%XknIA4qV.X+BHgo0c&
!=To&m@A~Ti8v+|D*Ih?0RIvM|aAO:j1@3ZBDjLRY@[^[CBsVOm)Q&*_`hcqw?frziBqENs_zF*qYD+0q,(L:eb>7Vvq=~L_G5G|=?09h2bCAyCo9`hhRE
?6YGPuNdRHi'6M*J%A2+qP:S[7mq$d@t*opUnc|u1Wjb^Vn8ch@=x0z.xDGMr&2m`7AZ>nL&Bth/15CtkjEub~CN`PXOfdIK/x7D974pCLb:'6JeW|k.gr
t~H,1vu>:Fv5yhHbk6s&wq`v9?xhrU6yQ$k46y_s'3=250I/<wF;;hmj$Y'HcAp66|VbwJia^W3Xjg`rbLB<hV,!>/[;$OD%y|%@vsDcmRF/sIv|Ksd4zl
+UplZsojas]u%^~zCsI:u;I`K@2.5W4:d~%*Bv4e_3zE[5'T0kibFcs_&Bn.iSQeU&OB'mcSJm*_M=OLH`9>*)R4~Y1Tl>KPleVqCa)FYTGV0r.g,7?K<+
n=:^~9jTeS|W'Q;M~*OGT[OXEhZ3buJ|ZTJIL=H/bm,BCpKo]t*pA9w5Y_`)Nsf$+:(e]Z)K~I&ncib2xvvDbAZhB?XgqiE(&x5*XUo[$:/.Iib2A`a`lx
J5s!I%'P+hgz~n9|)5*0!`t!ss'ji/8~8Yx0V^nfAzhJTw'4SlVM8ZR^D>x[VSOty8:JX*eS994f?|~4x_RPP_s[1iopoI;2kujwv9)<TYa]QN1<r<nx5!
4%t3+/g<?/O%+X*dz@PuBu<d5sEy'a~~asTj2eI;^dA80SMfxN_aitalmg>BxQ1]Owj9z88RD?hN'Xe252Fd=lnYu<gW'_)9@WB&)4r5IC>rITnK|'6(u|
&xS~g20w7?x$x$z._gDvGeD=M20_Q%3w=61X%YGimdf4QYTGN/wGMF=zlbGx4I:^O>XjRtl,dSE[PgN$W_wp|0JK'okD4iz)T%;/ayhxJk7WcET+e.HXN_
ZS([]ytv&_W!W!*xdPz3<[;')ICrTL`+SsC.F'dV<<ag%~_k<lW$+%Gwx*p>Z:dh?aF:Dmca(Y|kE.k+;Bl^o'!2ebTn(E`y>g3IsiL^s1`lG@N(hh5Vdu
[TbqtTQm?3DfRal]iFh2>=e4Co>*zTOPYC;CS^>A[^a2S221tFO$lCF&b$w7m:<D;_qMn[T;piH7Li&wcAY5NuyoM!pB^S?!=(az9(x)sHQCfhA]p&<A=z
91$'f:]iDbIq'16_7QBA%%_sJm1v|<uDpy|&UN=bIRe/3YggSZ);+A4%;I%_BK^5jT`sfgEQRlQ7Mw^rG&ql@S^kps%VZdf5wy3cz,1bliqpsB)+/>1xWV
hLl7)obga7<_!LlS+0EBjsCFmkYJ)[[8eX5O=(KYfn2e*Sn.~G3BuU&C'6%iS%B3Et1b@;Tw(:iXr6Ig$&0jMyQQQ)Q~~)NwO1WX_Arz?lg@EbCQpAeh]T
/9>?zTs2kh?w/TR8B1bFA8D6t+Qi3;Wl0iX;P8r6L%h22~l/f|~ugyv)Cj0mb5:tI[MgONRe&;*:y)w1AajZOUuA_JSO+;3AZ652&eDE<%foHWaxOF9I=A
eDt=EdXT3$SSY^v_BEak^go/%2p>dSN]dIs+@D?_yT]6h@wK(yzAryMf:wjSwHI`pi>~uOIYR=;H%qkk^b`'gt_+@Dm=hmBl)8EouN!)i6rt)4ms%*L2gb
kEZ*l@SnLR;=Uii;K:4sH'>i)>Pl%7m;F/1!]0A5B@|*T:@IhwkhEZR1!(8]dPz9$YmyBs]iB$GRVSfZ9rq$>,yARN%hkKD]7pnzD[W6?MJ2>f$6hC2chH
N%Ym=r.kru~KrUIY6g?+%K*O7y|2A((?oV/F`AK,X$zx6C+jnGv7ZJujKRmRzJd3sYVcagwh4HVA0<7nLr^UTlAa&AI%.O&V]F2<E)h1)qzYR4ci[so`)I
cGCt5a>d=YH5~/9x=I:Nh=3I)X+@6mwOo+:Fext=:i;,&t8?_m%T/xU'Im2G$0.7*cTlKZp?J8!WsO>b%ekc_JHiZUI38C_:SGm$)C[>mtsN~,Dx_IAE'Y
Y|YTBO1[0!If2DSdH!Q+Jva^okqse06O$XW1^Ql>9R9H%HY+cQWk9)H<UUY5O3OOM,%aUf|xfcwcv:8xlEtHwt0dZ_Vfbh>[^'_C6^=$77%jKa(g'm&X6s
sFimuxOV(,@COz6G~N2$^Oprq^21vH8LeYrl;4Ss70ten7wKjOeFPR9UlkD4,Q^g~[/vGEB=j?66mj&a~58q<>i$H<k=AzFnqW/vhrUbglVy,5Do$p,/c2
Aw2dv:Ty|]^MaM+ZJPPp5w*?bdS,Th[^`RNElg]o7kBllU$|GbET'Pk!qhzmZx9+)LPcA@z7gwg*6D<7AZ,<G&Q|BWFgyi^h7~*|NfZkSm:^vjP/BNcG=&
>+FgWBa4GO'[h+VhKxNa(shi4Gr>xE8D/!dXY@L[z]T$?DyeB@CJq>e<st]^1%yhY]u'zFyLNm1h.|aPoMK0KsVV)3<B8<f^&8d@&:Th&m.Ydee5;!Go>v
|d'g8,``GdyB_x_tmFvIk::3YKZFrQ@N!q1x)J&'wG?8aU8+*3;!2E>M+N=IN8mdzGjT_^H:$tWNLJ&]]eZsJgdkgUV8hg+7^_@Qlw%^sPS]vNpd)RqhzZ
)ADbQ!!Z0>8[5<R^GTkOh[Tf,f_2AfMPYh%agUcT=ko3Z@Uw2!&ee85!Nx2qRStKUW9|?Jt8H'9^^?T[Hn(wBkakI>.a7w@g3(`t)vbhnSLec6r3?v6of0
+xd5VXihg%O51l+klyU+@`2_BWMnLO''yw9na4<A!'HO@YIa9RkaPmw;ivjgqPo720gldzm+Be$+&GLX`M~n6r/4[kQ.^,b'FiyR*Ou7]U40]*mE0_V$tB
^GjaX>jWT`se?w/W]dlkjO*TwYFSh*_yjuM;>'<,y.d_2$+Se&4@Z^rDaj_@x73Qo8m=bS2xe7V,n.l+N|GRJ%e9TbmA:@A.R=)<F3iH.m[I*.0m$M'Piy
xuj7P.6l4UhUWk`z*WiGieHiIOg_'t6*,%r_J`D`5''sZ!Zt4XA=;Ofx8aymC!pXA|q4k.]HAH7?mn+aI[;h)VcYDm%R<=F@i4OqF@oMY<$^nT]yP>lj.k
La($?[qOOm%=IY0ala$)y<v<,EYWK)j^g57t:,/P&9g50JeIK*%e'k+j9tu^=GtRtCp.7LEt(e/]+OvX~&G2x(A|/EY`b`LNcdd(1FPR)4:?JfHEurT75_
U70qY3QAR33]xm0d._+t:u4+Ai$FyYXh[M~&L^xzA8thjXGy5w',Q|tt&&o'n_Dzqb+UE@tYlHwBV'l4=;X[g2X`~1j^:fjdfW1uF*2N`OO@Jg55p!^FP7
]aTl;wpyE6<%mMj^P6$S2h.p'~'|GB.nL(d4brJtm)m7%Rs9T:ajO@n|^Pzrf/y;$BE&EV914bPq<D;0fw:1L85t;*S!,nWQ/jRk~O3)^?C:(ba=C2?gcT
pc7QeTaRW_~pj`x0SXF:cy9dGO>Uokzmg[_|b,^/i*:zo?WR'q8U')TwPeyg:Q.9+4[OpDT6omb9EhQm]lc$<Y1j`q|(*@dZJqX1Hr9yUu(@ap@'v._<v|
Kt_rFmGJ8^n(?bDWXT*vZ!*r'S7hVRDepZ5LDc|bjvZtjK@x5(;V|`<.5v],1Bo&<4iI@YWx`dMF,H[8V7OCiKv:mch0M@Aao6GVHE5vWNut%g%<&~~5))
aY`)zc'gJRGN(LB]bK^Nil~6<HLqlS!|,=A5w9IMX0>pf+'Nxz$ssy~27$d&TMFTD$rwoN=bI/H~_40Khw[oBn[KoX]QV2g'Z1mTLEW8Jem@FydqkUXaEe
1,G>kZh[R9!a3/,xKd[&)<7J+C(g5|n~e~M$!HPwN~v_zQX3ZkPA*u>Ys$tbnsergdg1KC)h;|WDgQ$70;Jx~3I^mDft^fxJ;<z2sk*|]H6m<bpG=v9>Y4
F@z?3Df`<iN]qMcF6(GRcL>NRJW|H9kd[:&J_?IA/;G1PTR[m7vv_,7r5t1bHNz[o!jL?|^mG~zD~1LxI$_LO13n&D9J>04<`i+7hNhjDOpD7%25]6VM?[
2&Pj9'vw[[E:WJR2d'aCa%(O<l,vjq&baLK=M5AV8pJyT4I6cjuW)2E$m6:>W$W.rbB~?*?[HaCkFl/G*tI>e,z(nioZ'l^lU90D*KJfWv:eo5q0G7ZPH]
yJ|1Vf*,niFdS+udjL;!PrUYT;fgX~pMuO6&L$)tp0hJ!!c?]jsu+mG09Qxm!$bOk.~SAzk~0Cm6io]8S6art;)[/;FJx<P=lL3aAg'NQ2v1]@<2*9sV@]
+Aty*PPL?&Cz@:`DVp.j:+)|]oK=btVPsK5&oRmpl?qT67.7@$&IC@&w;qewEIQcdXR6QI:2=XnZry&%Fna+@CgOgf>x>B0lVWn|&PRN*EM:ArMXb)`Hsr
B.+O$hmX(OaTM.2kr?I0<h3N.e]&9:6K2f@.Er;]X8MjA,waN6:9H.EX!yruW>+'36(dD.K<qwwNFF[woM3HShjIbn]P!tEmO1%zY*iRP,z,q[][3oc/Tw
TB;O92!A19]:$aY);9)OLry0Wn:1(gGKGc%$@FU:<5%y.'Tl5?AZ~^3DELw8dd1X&1)iOWv9K$~rF'^s=bm_+Dn=,LH;qtDr4as!Zf>@wMf*y3nYkoPki`
PirT3o>F;EtRmYN60oTFE2.v~Y.Km3d?ngruYk=?:]IbaH*r~SEA.EAo^Zu<mUGr:J@41;/``7BxNl%='u(E2EnPRKgLB2KDA%(R,ZVQi^G4@dZ_&bD))q
k^b'c?]'s)[vJg.j`1Bdk3NWHrC`IR3FezWy^UBT|1kg5bk9n[Ktl.:%4BMzT*1`WAo.o+w4gScgN4bx4W@H>Om)w<H<2,]2S+,EK|jSiP!E584WjE(M`k
~:HcWu=OAL,?V%_$zgSt|,&!,lF$D8*`e?ToMfZ+w~,>'wJz_@9(bX2<>I>m?HN<_N:>_`yT,6%DdXK^R2k9Mq<lni1|'H%0pcfe&04we*Fp@[,!*E9u.7
B&I3L%DrRRHT,`^vs8'=z>4tTSy:qgvGMzEqRm!.r=W%yHE;b7I)ee?oMQCOuk<Xt44;szx,ROVGI`E%%dTR)7vQk9pw^O(FZy.1nIuNEb12.Gt0;3Ad%|
LVH)YVW_JS:.fp>VS*hl=3p[klYVMp>d9uh`0veya^1LlmX~e'A*MKwu^r9eNi9r=s1t9|!`EGXz8w4o%EYf&qzph+A.l1u[$+vP_cR(XAz$66lvE,+4sz
?H2^|<aXsryFJ3r1Sw^U<R`[Ff;y`^+b*K]s:)VYe/vwm<o,J*~09vHmtEvXwp4t@45/nN)'+8vH[EAq5W>S7h9b3F|3N_(DACKH<DItl0+&<?@W)zAxLO
X;C3s0*6&XJ6z<)Bgc,5=<'r|H,fuYnBW2%KVv1?@V22(|07P;h,`)W.=gS@8Z$2H_;2?s:mippYtKZ]HRA12BYfd(+p`P2ZBxd1>B;/`X8@xZf,r4+q:l
<Nnr`ecXP]3o91cg_])WS*`ea^;mcrRUfi4!0d_9%T$mfH][fXr]l*)pE!z<URzZ],+*NXc6wrhnp[xX3*RyFu.AqeSZ7|K@iV!YGIFR|K$q^mgi!IXym:
!5c6S<c]YPEfoEsiB9h6eSj&FO!n(5d;rOS~Bmr[kpN6,lUkY^Rv<kx(!>%[Tl@QmFmD%=b]ib4D[TP>HEzZsaqzh:sVtA.RFDLa3z7^_/73z/YZI6+HN6
Z.TxgcC*]_hm2:.gsHI`eODHsz<G_VeN3?l^_&y.UcHbb1ZuemReWcaoy,pDw79/ZZ,Ec2I7`][>'Az;!puPcL[yztQVI[iqcmS1glRCw=U[M!3D>T((%h
T~ize]aZgxPIi&(+$1PWCx~U!7=sv;RV)9]kkJl8O%`KxUc@G4r+X2/mL`+Oovx7ra3J&*bY;rQIed3&=GE'P~/xu>FQjiNa[7:.TmzmEq[L<_gxB%@Rke
ibSH^E`vz<WGM&1Yo(dsOy_4=1HF25.0S9ZR`i;VXdZ;$]FaRX(p52=O^CSmUVr0ioP0Y=z?U!I&Eb+JOhcgkZYO@kJ@mKU5l,TR!iVzZY(fs60wV`!`][
,)2u*,XIz<A0Ec4hSlX;p;69m)ch[!H|?a:~>Ev7HCG,].iG9sa/9LU;px:Uu9&K`GRjj|O;3yi++VHT~YcLcchAX<zk^9N~wGxJ,u1Vz3(|Aa68mMIg&|
,!1fP1i]x5gr1nVX*>>(vb|+r+AxVQUqmno_(*UD>HyLX_D],iy6@/O@qGsOG8<0p!*K,fQ;>@+Dw*NC4z0`odq$0HB$$rRf@U@Lhl+W+MYc~vx`Kx9GI:
XH@>Mm+v2]E@G'kzg645PkyB)gDLBW(y]^0h5<xv,j>?$mRnJsKloiUT?LPWnM@n/+UgLe]R3ceNL=|xSpbp0tI+yD7]NEz/5SPPT[3Yg%|y3k,My$?ior
?/v;E(|b)t!K!e(zQS&M+tUD:JrvReWx_H&z5V/~oI2We%C2l0Yp[6,53T)T+l~n,8=x%a,[$~`Ya>E.3+kDuE*oQx&@egsWfIUb|lMoS%K4;uY<SNBv>Y
l0QZevLopVNt7:vRUQ1X0o;,`wQ?8SVHi1YzLsbxO`$%d9bJ0K05uGJ[[?rp/qQP`GNVIZJ!!*kWI,olO2V3sMm+7n35,~SnNyL(vW)1!k^W`G:kH]x!Yt
iy[)`l|r'Fg9Kl:EK4Izht9fSt~ue1=^DFeT,SpBjx>1sLj(ZFcS`h@8k|`So`]uF`sp*cLO(kDXigNtSz^yMiVaodEbP>8E&un;>@dO'qQ,?2qz8Ss=Nt
~%)5C=^YWNfR1X@`+IV/7re;!oV%l76^nid4@Bp*kYNfFj(MOywJv8qCW09bY4HUW.ZV5<odrv6W9n|FTy;?thfQs_RX3'8gx+<^P=5[9]en_4Bm`BK?q!
_>U`S><2pkv~j<&t0B+?%VI>54:v>t7R$imRisou&9x:Q0b_aKfB[1M%@zhXGv1=|slYcQjb9^H&k]<v>V,DKtDb;s79SA%MudjBR6t:Elj/r8T<Fd|UPm
oJnbDB<mh.^v1fK:~`l!4mQ6)vy`Ymf?mYQuy!TtBf9r%$=zZ6sld&Tb7.%x1vC@^ytWCtYL,ad6Pe.Wus%s~,(Ll5$mYSCE._b65o>>[YfFxYSCP]ku:M
.1qf)jM=AWhNHIuOPMRB;6ErBtvwcbo@ReBglcY<K8SD!iuT;wRTXe[A^i4BR`!E^$]R&Gk?/RtT9fU,+@J^imV<G<c=_^&RHKxQ9A%Ws?wr38i$J3h/F9
J4o~UFqE~p.OX+fEHc~WvNe(xmKTY3~f2sIgZReHY<uv||F]C(0<g6VMH_<Zjs085|Wsc0F`YB;1P?W!p:W|5NiEBnTIyqye/n1s~@A`sDA(Ud^GkT[nEV
7=OOOAX,|6YucgNj&17R6a^Q,'j2F*oS&Q`V~UM*c5Ti5c*O7rgbCxd.kEzMaQA1%>D7<)P5hb;L0Jb~9_=/h3E!W5<'e/qy4hX0'z8,riI7<A9?m[48y)
^DTpTQx<$`v'%b1~Bw29GeU>usjL!E.ee/81/Da>94Y4:%<wNS8j2'M%f>7Fv.<.z;9*S?5vD5hmK=2)c~s+$y*JBe`gI]5.:Ikjlf^;?i?9wGk0d$B5Et
mpmO(D>~_s_7/|f(>0ie^Gxay(kBWdPP9rOEjMxsc0Z4A`$Y.x9fJhnTjsPPPw:eFE:w*MJ=+;zkg&~6@N6@b%XD)/hILFW_3+&Q~V9.UO%T_(oDw$e25$
dH][p?wZ*%ooDB)vETUP*>S4&3?]h;rJ@lS|UOC)';/K^ObE,x3H:U_M~wnu+UZEhs!x2XG0:]I$F_h_>34;SYQ;o=MJM0T@QLsJAWBg(@snV7>fRv9n@&
[Z!(DV$EQzi6X0C/?nX@(O0=r,^<!$AJk9fx8svLEc;OlO3%o3nR[oPgUA,W_d_H;zo3//^A]|^o_U>Os]VpTI(uC`Fk4;AX:@3w8AF9vWm(ggd6b&ZFsB
]XA)W^|1DPW,xn~/t2dL/7MrJeLnwOirw4YT^BY`QD'UhIz(pOl!~|(36D'))n'z'rp/CKgA%f%@p&^?,rm(M,x$%K~piRPgYE.xyi]TBm.3,DDCoD&:~O
bi!BC!Y,/G.kzK1Y')=WAv^S>[^!,:m8gDDOZ+47ll'VpLXb|Nx8!CupcrtECZk2bF&r%s~~H&:6;PXOca%Y;Lf+<nEvVfS?rbA4k|_MGhLkAVYB2Ip1,;
`A^.!&6OsT11:U|9YB^5S'YCcBRLhAiwU=NOAb_hbtl6vd8!U`>kcZ0mj<yKTc4][=LU>sk!KF,c>KV+Y7EY>r)1g<Jo|UCZDaNM]cNpBh;JU776jzuN;H
V(pRR$oL%;=l1fo~E_9q=M0ryldQHY0/[PiLDP5JcVYUN+~50QK:a[~Z+A8gb_F4+)Y]4qCO)fwZ~>hid1$P?)*CV<i$`keGn0a]MT`r))P%uJ/|;Kpj^J
'&on5EXa@0/)[5ifFRM(<ayt_TDrm0|INxALi34zgTd;5*%15nc`Rmx@&0XTaa3aN$<H$LBlXb>tL(Gi|0vry,^A4I/Wl=)yG$Wf,|6j(CqGTC9CZaF7/V
<XVtx^ihvJqe(Lhe>v|95_]cB`tQIf74[3H(Uc!G'<>sNV4CK2qNNUOr:R_$OH!sz)UR.>9]Hi2TTyC(x`MzE~jbok'ZaA^n])81NN_p_wq5=etag3'g31
3pXr^i|QtKz^As,7hvXr5lJKM$ZpnLl3|%gy5oOI=|;qn%HgB.W)7[p=nQyb0jJ9dm%hyiF_f><BNA0<^sz~]eg:XA38?B6x@&;OD_d>|A+u=VXCJ++]/=
.tECv_NdVq%P++[HkuK+_[ezM'lmkHUb>~<uLS=pVs(DcU5t^3=(RBum3q0%v~=bP]c'>]`%uHejca!UC3AXuim>2y(+k6z!v10?Lay[:'%vMO4$v^|q70
bR0(Uf^cH6Z,Lc`y>4l+v$lY8d?4IP<oR,/wfK4oyE&2yp~3&%q3T/%WGjCA)S=Ow<@7qRaIa^ECM_;8VBMnBEqQux,OOC;H9o0LuirD5f@B2M.i?4U0mw
Ez(JMJaEYPqd8n];WN~4QN]kBPz890X04QF1miaIJb?!R(K56JuR3:*J[`sfw3cA+?AG?qQ=oGuQ7Zma]y&913r5Kj*1?EXy$Z.x`%v/p2B$]!Am&b%[1[
K%ZVed$%_:;Z,tFGGt*NyYvOEhNA&j^WT23EEL=W:rw.GQtibk6z?pe1NvX)pRB@$cmHXNXk.45q?Km6;qDYfF|o^cfVp:mz::+Zg48^MTsIdL.2ArJL2J
USs1@A0)A.JcNMA6FX6`.uU8=%cpdD56*>75bWGkrz|W(`8[hukcTXptjdHvd)u5E*04U5qqN|BN_$)+^lq]szy=gmR`vPT)J5:c7e)%D5~Y./m)D5Cl`>
sUyI=Gj*wM~bHrF/0A~j1bK=8?!wd0[[HjmbW!|7iZS52K;KwX5,8F|eA,4=Bm/,CnWIss&aX,cyV=QJTpcuxy|h:wAE:p8?C+V3!~tR6:f2=f[dn:IpiA
5xCkAA+9)Qf&R@PZ*_.HW5cD5)Z[+t^1<_ksPAt[MD'0>+l[9`+QJqV0e!~y^HQNPbaPVl3Mr`Fz/2y9~sg:'2c9hfyI~&m$3_LVQx1rPS?nEa^9m9>D:;
@x]U//]Ol%H(E(7,aifB7/Z?m]vP/IuwNd%M+rARCn:oq'o`~jCv;CaBU&_EinO^&1_U'&hV/?2SCj8cTp'uj$CsS7F1k/Ee<e:w_<~oBlxpigrpA3C=Cz
r(UZv[.'NZ5o.%mHB`:Bf=S1;Jf_f.L68'JbDxa86G6HcLr]XOqs^L0ql;M=L@^<Uk0jqm6'D4^6@.e$`<_Mkm;vRybLnff?NxYFJ~L%qq]I]BH@zXeD];
?zTBjGRbBa5IK9$,K@::9Es,&5D?^(.LE3ILR&PfHe(Xb4PUIPMpBaKMcaMDA^Plwc?:^`c~S:pA/rDON'?ld~$Fq@3H0C;`da&`90dO:VzV!z(;Bg.nyE
Z_`vu<xDRZ/KhtZH+&L4a>@HkNp&as9Ovi3y>t33*N(Gr?vE2g[[/<h)N<n.qGg]_`577ZbP%ItQ'jMNv.h]>,jq[O<k8cCEgp7EnClnpbLs1ALX3by|<X
g0=0xM^4Kp3$][|[Jc;W+<tgcVeQQn5*QgqZ1Rddr,aUZZEU6Omp^tzr~]c^u)BmWIB>%!w4Y?pb1dC>L%|gL]7`ZI0r?;L__HH9~ffV/u^`IQtIE+U:Xq
T'6N7eNB+DrX|9'_W[[hK5Y?v_0Doqa&~mlzyMr8|B;*N7~i8UAo)m&=A5oHC:PI_U3?D3!K>BznZ<GvYD6EPI2Y)b@A*ag%FUbyEJk_XuY'v<%|>&n6fD
kx^inh_D(=&,~uVhSf)nLl@m'ia^kxf5yb$jLj?OU=5?+PBZE](<gTLv%Wfdw>Zjbde,T['j4?`*<N:;gXQi35m2t;TaN5FMxMZ36BwLUWT*CH>[^H8vBl
+|3gEx0wz~ISH%I/n<1cv[`Q%1Ct~N|g?G&||5=V)'A5WeCqLRLdGXK$x?DCqmR|]yU0s7eO,/JAniq.BIuo4^;NYBEt~Z:P,r0M:EK;(~x01a3@j.K<De
2~Vb/'lHo^C|)hJ!m`04kTOGOAj8.mf]!IT7"

end InlineMarkup
